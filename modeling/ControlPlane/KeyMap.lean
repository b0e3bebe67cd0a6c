/-!
# Maps from texts

`KeyMap α` maps texts to values and keeps its entries in ascending order of the keys. The order is
by code points, which is the order of the UTF-8 bytes; everything that is listed or written key by
key comes out in it. Since the entries are strictly ascending, a map has one representation only.
-/

namespace ControlPlane

namespace KeyMap

variable {α : Type}

/-- Every key is below the keys that follow it. So no key occurs twice, and two lists with the same
entries are the same list. -/
def Ascending (entries : List (String × α)) : Prop :=
  entries.Pairwise fun a b => a.1 < b.1

/-- Puts a value under a key, in the place of an entry of that key or where the order wants it. The
search stops at the first key that is not below it. -/
def place (key : String) (value : α) : List (String × α) → List (String × α)
  | [] => [(key, value)]
  | entry :: rest =>
    if key < entry.1 then (key, value) :: entry :: rest
    else if key = entry.1 then (key, value) :: rest
    else entry :: place key value rest

theorem mem_place {key : String} {value : α} {entries : List (String × α)} {x : String × α}
    (h : x ∈ place key value entries) : x = (key, value) ∨ x ∈ entries := by
  induction entries with
  | nil => simpa [place] using h
  | cons entry rest ih =>
    unfold place at h
    split at h
    · simpa using h
    · split at h
      · rcases List.mem_cons.1 h with h | h
        · exact .inl h
        · exact .inr (List.mem_cons_of_mem _ h)
      · rcases List.mem_cons.1 h with rfl | h
        · simp
        · rcases ih h with h | h
          · exact .inl h
          · exact .inr (List.mem_cons_of_mem _ h)

theorem ascending_place {key : String} {value : α} {entries : List (String × α)}
    (h : Ascending entries) : Ascending (place key value entries) := by
  induction entries with
  | nil => simp [place, Ascending]
  | cons entry rest ih =>
    obtain ⟨hhead, hrest⟩ := List.pairwise_cons.1 h
    unfold place
    split
    · rename_i hlt
      refine List.pairwise_cons.2 ⟨fun x hx => ?_, h⟩
      rcases List.mem_cons.1 hx with rfl | hx
      · exact hlt
      · exact String.lt_trans hlt (hhead x hx)
    · rename_i hlt
      split
      · rename_i heq
        exact List.pairwise_cons.2 ⟨fun x hx => by simpa [heq] using hhead x hx, hrest⟩
      · rename_i hne
        refine List.pairwise_cons.2 ⟨fun x hx => ?_, ih hrest⟩
        rcases mem_place hx with rfl | hx
        · have hle : entry.1 ≤ key := String.not_lt.1 hlt
          rcases Decidable.em (entry.1 < key) with hlt' | hlt'
          · exact hlt'
          · exact absurd (String.le_antisymm (String.not_lt.1 hlt') hle) hne
        · exact hhead x hx

end KeyMap

/-- A map from texts to values, as the ascending list of its entries. The order is part of the
structure, so that maps with the same entries are equal and are written in the same way. -/
structure KeyMap (α : Type) where
  /-- The keys with their values, in ascending order of the keys. -/
  entries : List (String × α)
  ascending : KeyMap.Ascending entries

namespace KeyMap

variable {α β : Type}

/-- The map without entries. -/
def empty : KeyMap α := ⟨[], List.Pairwise.nil⟩

instance : Inhabited (KeyMap α) := ⟨empty⟩

instance : EmptyCollection (KeyMap α) := ⟨empty⟩

@[ext] theorem ext {m n : KeyMap α} (h : m.entries = n.entries) : m = n := by
  cases m; cases n; cases h; rfl

instance [DecidableEq α] : DecidableEq (KeyMap α) := fun m n =>
  decidable_of_iff (m.entries = n.entries) ⟨ext, fun h => h ▸ rfl⟩

/-- The map with `value` under `key`, whatever was there before. -/
def insert (m : KeyMap α) (key : String) (value : α) : KeyMap α :=
  ⟨place key value m.entries, ascending_place m.ascending⟩

/-- The map of a list of entries; of two entries with one key the later one counts, as if they had
been inserted one after the other. -/
def ofList (entries : List (String × α)) : KeyMap α :=
  entries.foldl (fun m entry => m.insert entry.1 entry.2) empty

/-- The value under a key. -/
def get? (m : KeyMap α) (key : String) : Option α :=
  m.entries.lookup key

/-- Whether there is a value under a key. -/
def contains (m : KeyMap α) (key : String) : Bool :=
  (m.get? key).isSome

/-- The keys, in ascending order. -/
def keys (m : KeyMap α) : List String :=
  m.entries.map Prod.fst

/-- The entries whose keys satisfy `keep`. -/
def filterKeys (m : KeyMap α) (keep : String → Bool) : KeyMap α :=
  ⟨m.entries.filter fun entry => keep entry.1, m.ascending.filter _⟩

/-- The entries that satisfy `keep`. What is left of an ascending list is ascending. -/
def filter (m : KeyMap α) (keep : String → α → Bool) : KeyMap α :=
  ⟨m.entries.filter fun entry => keep entry.1 entry.2, m.ascending.filter _⟩

/-- The map without the entry of a key, which need not be there. -/
def erase (m : KeyMap α) (key : String) : KeyMap α :=
  m.filterKeys (· != key)

@[simp] theorem entries_empty : (empty : KeyMap α).entries = [] := rfl

@[simp] theorem entries_insert (m : KeyMap α) (key : String) (value : α) :
    (m.insert key value).entries = place key value m.entries := rfl

theorem lookup_place (key key' : String) (value : α) (entries : List (String × α)) :
    (place key value entries).lookup key' =
      if key' = key then some value else entries.lookup key' := by
  induction entries with
  | nil =>
    by_cases h : key' = key
    · simp [place, h]
    · simp [place, List.lookup_cons, h, beq_eq_false_iff_ne.2 h]
  | cons entry rest ih =>
    obtain ⟨other, held⟩ := entry
    unfold place
    split
    · by_cases h : key' = key
      · simp [h]
      · simp [List.lookup_cons, h, beq_eq_false_iff_ne.2 h]
    · split
      · rename_i heq
        by_cases h : key' = key
        · simp [h]
        · have h' : key' ≠ other := fun h'' => h (h''.trans heq.symm)
          simp [List.lookup_cons, h, beq_eq_false_iff_ne.2 h, beq_eq_false_iff_ne.2 h']
      · rename_i hne
        by_cases h : key' = other
        · have h' : ¬ other = key := fun h'' => hne h''.symm
          simp [h, h']
        · simp [List.lookup_cons, beq_eq_false_iff_ne.2 h, ih]

/-- A written value is found under its key, and nothing else changes. This is the one law from which
whatever depends on single keys is shown. -/
theorem get?_insert (m : KeyMap α) (key key' : String) (value : α) :
    (m.insert key value).get? key' = if key' = key then some value else m.get? key' :=
  lookup_place key key' value m.entries

@[simp] theorem get?_empty (key : String) : (empty : KeyMap α).get? key = none := rfl

end KeyMap

end ControlPlane
