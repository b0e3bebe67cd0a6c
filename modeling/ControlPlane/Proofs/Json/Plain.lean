import ControlPlane.Json.Writer
import ControlPlane.Proofs.Text.Digits

/-!
# Values that are written

The documents of this library are made of texts, integers, truth values, lists and records. They are
the values that can be written and read back; null, broken strings and fractions only ever come from
texts that somebody else has written.

A reader of any format meets a character of a text in one of three forms: behind a backslash, by its
number, or as it is. `escaped_escapeChar` says so once for all of them.
-/

namespace ControlPlane.Json

/-- A value made of texts that satisfy `ok`, integers, truth values, lists, and records with field
names that satisfy `named`. -/
inductive Plain (ok named : String → Prop) : Json → Prop
  | bool (b : Bool) : Plain ok named (.bool b)
  | integer (n : Int) : Plain ok named (.number (.integer n))
  | text {s : String} : ok s → Plain ok named (.ofString s)
  | array {items : List Json} : (∀ j ∈ items, Plain ok named j) → Plain ok named (.array items)
  | record {fields : List (String × Json)} : (∀ f ∈ fields, named f.1) →
      (∀ f ∈ fields, Plain ok named f.2) → Plain ok named (.record fields)

theorem Plain.ofNat {ok named : String → Prop} (n : Nat) : Plain ok named (.ofNat n) := .integer n

/-- A record whose field names are among names that are known to be fine. -/
theorem Plain.recordOf {ok named : String → Prop} {names : List String}
    (hnamed : ∀ name ∈ names, named name) {fields : List (String × Json)}
    (hnames : fields.map Prod.fst ⊆ names) (hfields : ∀ f ∈ fields, Plain ok named f.2) :
    Plain ok named (.record fields) :=
  .record (fun _ hf => hnamed _ (hnames (List.mem_map_of_mem hf))) hfields

/-! ### Escapes -/

/-- The characters that are escaped by a letter or by themselves, behind what stands for them. -/
def shortEscapes : List (Char × Char) :=
  [('\x22', '\x22'), ('\x5c', '\x5c'), ('b', '\x08'), ('f', '\x0c'), ('n', '\n'), ('r', '\r'),
    ('t', '\t')]

/-- The forms in which a character stands in a string. -/
inductive Escaped : Char → List Char → Prop
  | short {e c : Char} : (e, c) ∈ shortEscapes → Escaped c ['\x5c', e]
  | unit {c : Char} : c.toNat < 0x20 → Escaped c ('\x5c' :: 'u' :: unitDigits c.toNat)
  | itself {c : Char} : 0x20 ≤ c.toNat → c ≠ '\x22' → c ≠ '\x5c' → Escaped c [c]

theorem escaped_escapeChar (c : Char) : Escaped c (escapeChar c) := by
  unfold escapeChar
  split
  · rename_i h
    simp only [Bool.or_eq_true, decide_eq_true_eq] at h
    rcases h with rfl | rfl
    · exact .short (by decide)
    · exact .short (by decide)
  rename_i hself
  simp only [Bool.or_eq_true, decide_eq_true_eq, not_or] at hself
  split
  · subst c
    exact .short (by decide)
  split
  · subst c
    exact .short (by decide)
  split
  · subst c
    exact .short (by decide)
  split
  · subst c
    exact .short (by decide)
  split
  · subst c
    exact .short (by decide)
  split
  · rename_i hcontrol
    exact .unit hcontrol
  · rename_i hcontrol
    exact .itself (Nat.le_of_not_lt hcontrol) hself.1 hself.2

/-! ### The texts of a value -/

/-- The value holds the text somewhere, other than as the name of a field. -/
inductive HasText (s : String) : Json → Prop
  | text : HasText s (.ofString s)
  | item {items : List Json} {j : Json} : j ∈ items → HasText s j → HasText s (.array items)
  | field {fields : List (String × Json)} {f : String × Json} : f ∈ fields → HasText s f.2 →
      HasText s (.record fields)

theorem mem_printItems {items : List Json} {j : Json} {c : Char} (hj : j ∈ items)
    (hc : c ∈ j.print) : c ∈ printItems items := by
  induction items with
  | nil => cases hj
  | cons item items ih =>
    cases items with
    | nil =>
      obtain rfl := List.mem_singleton.mp hj
      rwa [printItems]
    | cons item' items =>
      rw [printItems, List.mem_append, List.mem_cons]
      · rcases List.mem_cons.mp hj with rfl | hj
        · exact .inl hc
        · exact .inr (.inr (ih hj))
      · simp

theorem mem_printMembers {fields : List (String × Json)} {f : String × Json} {c : Char}
    (hf : f ∈ fields) (hc : c ∈ f.2.print) :
    c ∈ printMembers (fields.map fun f => (.text f.1, f.2)) := by
  induction fields with
  | nil => cases hf
  | cons field fields ih =>
    cases fields with
    | nil =>
      obtain rfl := List.mem_singleton.mp hf
      simp [printMembers, hc]
    | cons field' fields =>
      rw [List.map_cons, printMembers, List.mem_append, List.mem_cons, List.mem_append,
        List.mem_cons]
      · rcases List.mem_cons.mp hf with rfl | hf
        · exact .inr (.inr (.inl hc))
        · exact .inr (.inr (.inr (.inr (ih hf))))
      · simp

/-- **The text of a value contains its texts,** names included, so a character that cannot be read
back makes the whole value unreadable. -/
theorem HasText.mem_print {s : String} {j : Json} {c : Char} (h : HasText s j)
    (hc : c ∈ (Literal.text s).print) : c ∈ j.print := by
  induction h with
  | text => rwa [ofString, print]
  | item hj _ ih =>
    rw [print]
    exact List.mem_cons_of_mem _ (List.mem_append_left _ (mem_printItems hj ih))
  | field hf _ ih =>
    rw [record, print]
    exact List.mem_cons_of_mem _ (List.mem_append_left _ (mem_printMembers hf ih))

/-! ### Printed lists and records -/

/-- What may follow a value in a document: nothing, a comma or a closing bracket. -/
def Follows : List Char → Prop
  | [] => True
  | c :: _ => c = ',' ∨ c = ']' ∨ c = '\x7d'

@[simp] theorem follows_comma (rest : List Char) : Follows (',' :: rest) := .inl rfl

@[simp] theorem follows_bracket (rest : List Char) : Follows (']' :: rest) := .inr (.inl rfl)

@[simp] theorem follows_brace (rest : List Char) : Follows ('\x7d' :: rest) := .inr (.inr rfl)

theorem printItems_cons_cons (item item' : Json) (items : List Json) :
    printItems (item :: item' :: items) = item.print ++ ',' :: printItems (item' :: items) := by
  rw [printItems]
  simp

/-- The members of an object made of fields. -/
def membersOf (fields : List (String × Json)) : List (Literal × Json) :=
  fields.map fun field => (.text field.1, field.2)

/-- A name and what stands behind it, as the writer puts them down. -/
def printName (name : String) (text : List Char) : List Char :=
  '\x22' :: (name.toList.flatMap escapeChar ++ '\x22' :: ':' :: text)

theorem printMembers_singleton (name : String) (value : Json) :
    printMembers (membersOf [(name, value)]) = printName name value.print := by
  simp [membersOf, printMembers, Literal.print, printName]

theorem printMembers_cons_cons (name : String) (value : Json) (field : String × Json)
    (fields : List (String × Json)) :
    printMembers (membersOf ((name, value) :: field :: fields)) =
      printName name (value.print ++ ',' :: printMembers (membersOf (field :: fields))) := by
  rw [membersOf, List.map_cons, printMembers]
  · simp [membersOf, Literal.print, printName]
  · simp

theorem printName_append (name : String) (text rest : List Char) :
    printName name text ++ rest = printName name (text ++ rest) := by
  simp [printName]

end ControlPlane.Json
