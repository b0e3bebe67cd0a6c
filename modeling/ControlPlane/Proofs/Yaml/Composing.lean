import ControlPlane.Proofs.Yaml.Scanning
import ControlPlane.Yaml.Node.OfTokens

/-!
# The document of a JSON text

The tokens of a JSON value are read as the node of that value: a scalar for a text, a number or a
truth value, a sequence for a list, a mapping for a record. There are no anchors, so nothing is
registered on the way, and only the count of nodes changes.

## Main definitions

* `nodeOf`: the node of a value

## Main results

* `composed_plain`: the node of a value, wherever its tokens stand
* `ofText?_print`: the document of a text that consists of a list
-/

namespace ControlPlane.Yaml

open Json

mutual

/-- The node of a value. Texts are in quotes and everything else is plain, so a text is never taken
for a number. -/
def nodeOf : Json → Node
  | .null => .scalar .plain none "null"
  | .bool b => .scalar .plain none (String.ofList (print (.bool b)))
  | .number n => .scalar .plain none (String.ofList n.print)
  | .string s => .scalar .doubleQuoted none (s.text?.getD "")
  | .array items => .sequence (itemNodes items)
  | .object members => .mapping (memberNodes members)

/-- The nodes of items. -/
def itemNodes : List Json → List Node
  | [] => []
  | item :: items => nodeOf item :: itemNodes items

/-- The nodes of members, whose names have no lone halves where this is used. -/
def memberNodes : List (Literal × Json) → List (Node × Node)
  | [] => []
  | (name, value) :: members =>
    (.scalar .doubleQuoted none (name.text?.getD ""), nodeOf value) :: memberNodes members

end

/-- A state in which no anchor has been read. -/
def unanchored (handles : List (String × String)) (size : Nat) (rest : List Token) : Reading :=
  ⟨rest, handles, [], [], size⟩

/-- Whether tokens are read as a node wherever they stand. -/
def Composed (tokens : List Token) (node : Node) : Prop :=
  ∀ (bound : Nat) (context : Context) (handles : List (String × String)) (size : Nat)
    (rest : List Token), 3 * tokens.length ≤ bound → ∃ size',
      readNode? bound context (unanchored handles size (tokens ++ rest)) =
        some (node, unanchored handles size' rest)

/-- A token with which a node may begin, if it was written as JSON. -/
inductive Begins : Token → Prop
  | scalar (style : Style) (text : String) : Begins (.scalar style text)
  | sequence : Begins .flowSequenceStart
  | mapping : Begins .flowMappingStart

theorem begins_tokensOf (j : Json) : ∃ t tokens, tokensOf j = t :: tokens ∧ Begins t := by
  cases j with
  | null => exact ⟨_, _, rfl, .scalar ..⟩
  | bool b => exact ⟨_, _, rfl, .scalar ..⟩
  | number n => exact ⟨_, _, rfl, .scalar ..⟩
  | string s => exact ⟨_, _, rfl, .scalar ..⟩
  | array items => exact ⟨_, _, rfl, .sequence⟩
  | object members => exact ⟨_, _, rfl, .mapping⟩

section

variable {handles : List (String × String)} {size : Nat} {rest : List Token}

@[simp] theorem nextIn_cons (t : Token) (ends : List Token) :
    (unanchored handles size (t :: rest)).nextIn ends = ends.contains t := rfl

@[simp] theorem skip_cons (t : Token) :
    (unanchored handles size (t :: rest)).skip = unanchored handles size rest := rfl

@[simp] theorem grow_unanchored :
    (unanchored handles size rest).grow = unanchored handles (size + 1) rest := rfl

@[simp] theorem rest_unanchored : (unanchored handles size rest).rest = rest := rfl

@[simp] theorem goOn_unanchored (rest' : List Token) :
    (unanchored handles size rest).goOn rest' = unanchored handles size rest' := rfl

/-- A node has no properties where it may begin at once. -/
theorem readNode?_of_begins {t : Token} (ht : Begins t) (bound : Nat) (context : Context) :
    readNode? (bound + 1) context (unanchored handles size (t :: rest)) =
      readContent? bound context ⟨none, none⟩ (unanchored handles size (t :: rest)) := by
  have hbind : readNode? (bound + 1) context (unanchored handles size (t :: rest)) =
      (readContent? bound context ⟨none, none⟩ (unanchored handles size (t :: rest))).bind
        fun x => some (x.1, x.2) := by
    rw [readNode?]
    cases ht <;> rfl
  rw [hbind]
  cases readContent? bound context ⟨none, none⟩ (unanchored handles size (t :: rest)) <;> rfl

theorem readContent?_scalar (bound : Nat) (context : Context) (style : Style) (text : String) :
    readContent? (bound + 1) context ⟨none, none⟩
        (unanchored handles size (.scalar style text :: rest)) =
      some (.scalar style none text, unanchored handles (size + 1) rest) := by
  rw [readContent?]
  rfl

theorem readContent?_sequence (bound : Nat) (context : Context) :
    readContent? (bound + 1) context ⟨none, none⟩
        (unanchored handles size (.flowSequenceStart :: rest)) =
      (readFlowItems? bound true (unanchored handles (size + 1) rest)).bind
        fun x => some (.sequence x.1, x.2) := by
  rw [readContent?]
  rfl

theorem readContent?_mapping (bound : Nat) (context : Context) :
    readContent? (bound + 1) context ⟨none, none⟩
        (unanchored handles size (.flowMappingStart :: rest)) =
      (readFlowPairs? bound true (unanchored handles (size + 1) rest)).bind
        fun x => some (.mapping x.1, x.2) := by
  rw [readContent?]
  rfl

theorem composed_scalar (style : Style) (text : String) :
    Composed [.scalar style text] (.scalar style none text) := by
  intro bound context handles size rest hbound
  obtain ⟨bound, rfl⟩ : ∃ k, bound = k + 2 := ⟨bound - 2, by simp at hbound; omega⟩
  refine ⟨size + 1, ?_⟩
  rw [List.singleton_append, readNode?_of_begins (.scalar ..), readContent?_scalar]

/-! ### Lists -/

theorem readFlowItems?_end (bound : Nat) (first : Bool) :
    readFlowItems? (bound + 1) first (unanchored handles size (.flowSequenceEnd :: rest)) =
      some ([], unanchored handles (size + 1) rest) := by
  rw [readFlowItems?]
  simp

theorem readFlowItems?_entry (bound : Nat) {t : Token} (ht : Begins t) :
    readFlowItems? bound false (unanchored handles size (.flowEntry :: t :: rest)) =
      readFlowItems? bound true (unanchored handles size (t :: rest)) := by
  cases bound with
  | zero => simp [readFlowItems?]
  | succ bound =>
    rw [readFlowItems?, readFlowItems?]
    cases ht <;> simp

theorem readFlowItems?_begins (bound : Nat) {t : Token} (ht : Begins t) :
    readFlowItems? (bound + 1) true (unanchored handles size (t :: rest)) =
      (readNode? bound .flow (unanchored handles size (t :: rest))).bind fun x =>
        (readFlowItems? bound false x.2).bind fun y => some (x.1 :: y.1, y.2) := by
  rw [readFlowItems?]
  cases ht <;> simp

theorem begins_itemTokens (item : Json) (items : List Json) :
    ∃ t tokens, itemTokens (item :: items) = t :: tokens ∧ Begins t := by
  obtain ⟨t, tokens, htokens, ht⟩ := begins_tokensOf item
  cases items with
  | nil => exact ⟨t, tokens, by rw [itemTokens, htokens], ht⟩
  | cons item' items =>
    exact ⟨t, _, by rw [itemTokens_cons_cons, htokens, List.cons_append], ht⟩

/-- The items of a list, up to and with its end. -/
theorem readFlowItems?_items {items : List Json}
    (hitems : ∀ j ∈ items, Composed (tokensOf j) (nodeOf j))
    (bound : Nat) (handles : List (String × String)) (size : Nat) (rest : List Token)
    (hbound : 3 * (itemTokens items).length + 1 ≤ bound) : ∃ size',
    readFlowItems? bound true
        (unanchored handles size (itemTokens items ++ .flowSequenceEnd :: rest)) =
      some (itemNodes items, unanchored handles size' rest) := by
  induction items generalizing bound size with
  | nil =>
    obtain ⟨bound, rfl⟩ : ∃ k, bound = k + 1 := ⟨bound - 1, by omega⟩
    exact ⟨size + 1, readFlowItems?_end bound true⟩
  | cons item items ih =>
    obtain ⟨bound, rfl⟩ : ∃ k, bound = k + 1 := ⟨bound - 1, by omega⟩
    have hitem := hitems item (List.mem_cons_self ..)
    obtain ⟨t, tokens, htokens, ht⟩ := begins_tokensOf item
    cases items with
    | nil =>
      rw [itemTokens] at hbound ⊢
      obtain ⟨size', hread⟩ := hitem bound .flow handles size (.flowSequenceEnd :: rest) (by omega)
      obtain ⟨bound, rfl⟩ : ∃ k, bound = k + 1 :=
        ⟨bound - 1, by rw [htokens] at hbound; simp at hbound; omega⟩
      refine ⟨size' + 1, ?_⟩
      rw [htokens, List.cons_append] at hread ⊢
      rw [readFlowItems?_begins _ ht, hread, Option.bind_some, readFlowItems?_end, Option.bind_some]
      simp [itemNodes]
    | cons item' items =>
      rw [itemTokens_cons_cons, List.length_append, List.length_cons] at hbound
      obtain ⟨size₁, hread⟩ := hitem bound .flow handles size
        (.flowEntry :: (itemTokens (item' :: items) ++ .flowSequenceEnd :: rest)) (by omega)
      obtain ⟨size₂, hrest⟩ := ih (fun j hj => hitems j (List.mem_cons_of_mem item hj))
        bound size₁ (by rw [htokens] at hbound; simp at hbound; omega)
      obtain ⟨t', tokens', htokens', ht'⟩ := begins_itemTokens item' items
      refine ⟨size₂, ?_⟩
      rw [itemTokens_cons_cons, List.append_assoc, List.cons_append]
      rw [htokens, List.cons_append] at hread ⊢
      rw [readFlowItems?_begins _ ht, hread, Option.bind_some]
      rw [htokens', List.cons_append] at hrest ⊢
      rw [readFlowItems?_entry _ ht', hrest, Option.bind_some]
      simp [itemNodes]

theorem composed_array {items : List Json}
    (hitems : ∀ j ∈ items, Composed (tokensOf j) (nodeOf j)) :
    Composed (tokensOf (.array items)) (nodeOf (.array items)) := by
  intro bound context handles size rest hbound
  rw [tokensOf, List.length_cons, List.length_append, List.length_singleton] at hbound
  obtain ⟨bound, rfl⟩ : ∃ k, bound = k + 2 := ⟨bound - 2, by omega⟩
  obtain ⟨size', hread⟩ := readFlowItems?_items hitems bound handles (size + 1) rest (by omega)
  refine ⟨size', ?_⟩
  rw [tokensOf, nodeOf, List.cons_append, List.append_assoc, List.singleton_append,
    readNode?_of_begins .sequence, readContent?_sequence, hread]
  rfl

/-! ### Records -/

theorem readFlowPairs?_end (bound : Nat) (first : Bool) :
    readFlowPairs? (bound + 1) first (unanchored handles size (.flowMappingEnd :: rest)) =
      some ([], unanchored handles (size + 1) rest) := by
  rw [readFlowPairs?]
  simp

theorem readFlowPairs?_entry (bound : Nat) :
    readFlowPairs? bound false (unanchored handles size (.flowEntry :: .key :: rest)) =
      readFlowPairs? bound true (unanchored handles size (.key :: rest)) := by
  cases bound with
  | zero => simp [readFlowPairs?]
  | succ bound =>
    rw [readFlowPairs?, readFlowPairs?]
    simp

theorem readFlowPairs?_name (bound : Nat) (name : String) {t : Token} (ht : Begins t) :
    readFlowPairs? (bound + 4) true (unanchored handles size
        (.key :: .scalar .doubleQuoted name :: .value :: t :: rest)) =
      (readNode? (bound + 2) .flow (unanchored handles (size + 1) (t :: rest))).bind fun x =>
        (readFlowPairs? (bound + 3) false x.2).bind fun y =>
          some ((.scalar .doubleQuoted none name, x.1) :: y.1, y.2) := by
  have hkey : readOptional? (bound + 3) .flow [.value, .flowEntry, .flowMappingEnd]
      (unanchored handles size (.scalar .doubleQuoted name :: .value :: t :: rest)) =
      some (.scalar .doubleQuoted none name,
        unanchored handles (size + 1) (.value :: t :: rest)) := by
    rw [readOptional?, nextIn_cons, if_neg (by simp), readNode?_of_begins (.scalar ..),
      readContent?_scalar]
  have hvalue : readOptional? (bound + 3) .flow [.flowEntry, .flowMappingEnd]
      (unanchored handles (size + 1) (t :: rest)) =
      readNode? (bound + 2) .flow (unanchored handles (size + 1) (t :: rest)) := by
    rw [readOptional?, nextIn_cons, if_neg (by cases ht <;> simp)]
  rw [readFlowPairs?]
  simp [hkey, hvalue]

theorem key_memberTokens (field : String × Json) (fields : List (String × Json)) :
    ∃ tokens, memberTokens (membersOf (field :: fields)) = .key :: tokens := by
  cases fields with
  | nil => exact ⟨_, rfl⟩
  | cons field' fields => exact ⟨_, memberTokens_cons_cons field.1 field.2 field' fields⟩

/-- The pairs of a record, up to and with its end. -/
theorem readFlowPairs?_members {fields : List (String × Json)}
    (hfields : ∀ f ∈ fields, Composed (tokensOf f.2) (nodeOf f.2)) (bound : Nat)
    (handles : List (String × String)) (size : Nat) (rest : List Token)
    (hbound : 3 * (memberTokens (membersOf fields)).length + 1 ≤ bound) : ∃ size',
    readFlowPairs? bound true
        (unanchored handles size (memberTokens (membersOf fields) ++ .flowMappingEnd :: rest)) =
      some (memberNodes (membersOf fields), unanchored handles size' rest) := by
  induction fields generalizing bound size with
  | nil =>
    obtain ⟨bound, rfl⟩ : ∃ k, bound = k + 1 := ⟨bound - 1, by omega⟩
    exact ⟨size + 1, readFlowPairs?_end bound true⟩
  | cons field fields ih =>
    obtain ⟨name, value⟩ := field
    have hvalue : Composed (tokensOf value) (nodeOf value) :=
      hfields (name, value) (List.mem_cons_self ..)
    obtain ⟨t, tokens, htokens, ht⟩ := begins_tokensOf value
    cases fields with
    | nil =>
      have hmembers : memberTokens (membersOf [(name, value)]) =
          .key :: .scalar .doubleQuoted name :: .value :: tokensOf value := rfl
      rw [hmembers] at hbound ⊢
      simp only [List.length_cons] at hbound
      obtain ⟨bound, rfl⟩ : ∃ k, bound = k + 4 := ⟨bound - 4, by omega⟩
      obtain ⟨size', hread⟩ := hvalue (bound + 2) .flow handles (size + 1)
        (.flowMappingEnd :: rest) (by omega)
      refine ⟨size' + 1, ?_⟩
      simp only [List.cons_append]
      rw [htokens, List.cons_append] at hread ⊢
      rw [readFlowPairs?_name _ _ ht, hread, Option.bind_some, readFlowPairs?_end]
      rfl
    | cons field' fields =>
      rw [memberTokens_cons_cons] at hbound ⊢
      simp only [List.length_cons, List.length_append] at hbound
      obtain ⟨bound, rfl⟩ : ∃ k, bound = k + 4 := ⟨bound - 4, by omega⟩
      obtain ⟨size₁, hread⟩ := hvalue (bound + 2) .flow handles (size + 1)
        (.flowEntry :: (memberTokens (membersOf (field' :: fields)) ++ .flowMappingEnd :: rest))
        (by omega)
      obtain ⟨size₂, hrest⟩ := ih (fun f hf => hfields f (List.mem_cons_of_mem _ hf))
        (bound + 3) size₁ (by omega)
      refine ⟨size₂, ?_⟩
      simp only [List.cons_append, List.append_assoc]
      rw [htokens, List.cons_append] at hread ⊢
      rw [readFlowPairs?_name _ _ ht, hread, Option.bind_some]
      obtain ⟨tokens', htokens'⟩ := key_memberTokens field' fields
      rw [htokens', List.cons_append] at hrest ⊢
      rw [readFlowPairs?_entry, hrest]
      rfl

theorem composed_record {fields : List (String × Json)}
    (hfields : ∀ f ∈ fields, Composed (tokensOf f.2) (nodeOf f.2)) :
    Composed (tokensOf (.record fields)) (nodeOf (.record fields)) := by
  intro bound context handles size rest hbound
  change 3 * (tokensOf (.object (membersOf fields))).length ≤ bound at hbound
  change ∃ size', readNode? bound context
    (unanchored handles size (tokensOf (.object (membersOf fields)) ++ rest)) =
    some (nodeOf (.object (membersOf fields)), unanchored handles size' rest)
  rw [tokensOf, List.length_cons, List.length_append, List.length_singleton] at hbound
  obtain ⟨bound, rfl⟩ : ∃ k, bound = k + 2 := ⟨bound - 2, by omega⟩
  obtain ⟨size', hread⟩ := readFlowPairs?_members hfields bound handles (size + 1) rest (by omega)
  refine ⟨size', ?_⟩
  rw [tokensOf, nodeOf, List.cons_append, List.append_assoc, List.singleton_append,
    readNode?_of_begins .mapping, readContent?_mapping, hread]
  rfl

/-- **The tokens of a value are read as its node.** -/
theorem composed_plain {ok named : String → Prop} {j : Json} (h : Plain ok named j) :
    Composed (tokensOf j) (nodeOf j) := by
  induction h with
  | bool b => exact composed_scalar _ _
  | integer n => exact composed_scalar _ _
  | text _ => exact composed_scalar _ _
  | array _ ih => exact composed_array ih
  | record _ _ ih => exact composed_record ih

end

/-! ### Whole texts -/

/-- **The document of the text of a list** holds the node of the list and no anchors. -/
theorem ofText?_print {items : List Json} (h : ∀ j ∈ items, Plain Steady ShortName j) :
    ∃ size, Document.ofText? (print (.array items)) = some ⟨nodeOf (.array items), [], size⟩ := by
  have hplain : Plain Steady ShortName (.array items) := .array h
  obtain ⟨size, hread⟩ := composed_plain hplain (6 * (tokensOf (.array items)).length + 6) .block
    standardHandles 0 [] (by omega)
  rw [List.append_nil] at hread
  refine ⟨size, ?_⟩
  rw [Document.ofText?, tokens?_print h, Option.bind_eq_bind, Option.bind_some, documentOfTokens?]
  have htokens : tokensOf (.array items) =
      .flowSequenceStart :: (itemTokens items ++ [.flowSequenceEnd]) := by rw [tokensOf]
  rw [htokens] at hread ⊢
  change (readNode? _ .block (unanchored standardHandles 0
    (.flowSequenceStart :: (itemTokens items ++ [.flowSequenceEnd])))).bind _ = _
  rw [hread]
  rfl

end ControlPlane.Yaml
