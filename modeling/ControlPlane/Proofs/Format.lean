import ControlPlane.Format
import ControlPlane.Json.Format
import ControlPlane.Proofs.Json.Plain

/-!
# Documents that show what was written

Records are written as JSON and read from any format. What a format has to do for that is to show
each written value in the view that belongs to it; `Format.Shows` says so, once for each kind of
value. That a record is read back as it was written is then proved once, for all formats.

## Main definitions

* `Format.Shows`, with the form in which a written value appears in the format

## Main results

* `shows_json`: JSON documents show themselves
* `field_form`, `list_form`, `word16_form`, `word64_form`: the rules for reading records back
-/

namespace ControlPlane.Format

variable {m : Type → Type} {ν : Type} [Monad m] [Format m ν] {form : Json → ν}

/-- A format in which a written value appears as its `form`, and shows what it is. -/
structure Shows (m : Type → Type) {ν : Type} [Monad m] [Format m ν] (form : Json → ν) : Prop where
  text : ∀ s, text (m := m) (form (.ofString s)) = pure s
  natural : ∀ n, n < UInt64.size → natural (m := m) (form (.ofNat n)) = pure n
  flag : ∀ b, flag (m := m) (form (.bool b)) = pure b
  items : ∀ l, items (m := m) (form (.array l)) = pure (l.map form)
  fields : ∀ names fs, fields (m := m) names (form (.record fs)) =
    pure (fs.map fun f => (f.1, form f.2))

/-- Reading item by item what is read without effect. -/
theorem mapM_map_eq_pure {m : Type → Type} [Monad m] [LawfulMonad m] {α β γ : Type} {read : β → m γ}
    {write : α → β} (value : α → γ) {l : List α} (h : ∀ a ∈ l, read (write a) = pure (value a)) :
    (l.map write).mapM read = pure (l.map value) := by
  induction l with
  | nil => rfl
  | cons a l ih =>
    rw [List.map_cons, List.mapM_cons, h a (List.mem_cons_self ..), pure_bind,
      ih fun b hb => h b (List.mem_cons_of_mem a hb), pure_bind]
    rfl

theorem members?_record (fs : List (String × Json)) : (Json.record fs).members? = some fs := by
  rw [Json.record, Json.members?, mapM_map_eq_pure id, List.map_id]
  · rfl
  · exact fun _ _ => rfl

/-- **JSON documents show themselves.** With this the lemmas on fields hold of JSON as they hold of
YAML. -/
theorem shows_json : Shows Option (id : Json → Json) where
  text _ := rfl
  natural _ _ := rfl
  flag _ := rfl
  items l := by rw [List.map_id]; rfl
  fields _ fs := (members?_record fs).trans (by simp)

/-- Among fields of different names, one is found by its name. -/
theorem only_eq_of_mem {fields : List (String × ν)} {name : String} {v : ν}
    (hnames : (fields.map Prod.fst).Nodup) (h : (name, v) ∈ fields) :
    only (m := m) name fields = pure (some v) := by
  have hfilter : fields.filter (·.1 == name) = [(name, v)] := by
    induction fields with
    | nil => cases h
    | cons f fields ih =>
      obtain ⟨hf, hnames⟩ := List.nodup_cons.mp hnames
      rcases List.mem_cons.mp h with rfl | h
      · rw [List.filter_cons_of_pos (by simp), List.filter_eq_nil_iff.mpr]
        exact fun f' hf' hname => hf (List.mem_map.mpr ⟨f', hf', by simpa using hname⟩)
      · have hne : f.1 ≠ name := fun hname =>
          hf (hname ▸ List.mem_map_of_mem (f := Prod.fst) h)
        rw [List.filter_cons_of_neg (by simpa using hne), ih hnames h]
  rw [only, hfilter]

variable [LawfulMonad m]

theorem field_form {α : Type} {fs : List (String × Json)} {name : String} {j : Json} {a : α}
    {read : ν → m α} {default : α} (hnames : (fs.map Prod.fst).Nodup) (hmem : (name, j) ∈ fs)
    (h : read (form j) = pure a) :
    field (fs.map fun f => (f.1, form f.2)) name read default = pure a := by
  have honly : only (m := m) name (fs.map fun f => (f.1, form f.2)) = pure (some (form j)) :=
    only_eq_of_mem (by simpa [List.map_map, Function.comp_def] using hnames)
      (List.mem_map.mpr ⟨(name, j), hmem, rfl⟩)
  rw [field, honly, pure_bind]
  exact h

/-- A list that was written is read item by item. -/
theorem list_form {α : Type} (shows : Shows m form) {toJson : α → Json} {read : ν → m α}
    {l : List α}
    (h : ∀ a ∈ l, read (form (toJson a)) = pure a) :
    list read (form (.array (l.map toJson))) = pure l := by
  rw [list, shows.items, pure_bind, List.map_map]
  exact (mapM_map_eq_pure _ h).trans (by rw [List.map_id'])

theorem word16_form (shows : Shows m form) (n : UInt16) :
    word16 (m := m) (form (.ofNat n.toNat)) = pure n := by
  have hlt : n.toNat < UInt16.size := n.toNat_lt
  rw [word16, shows.natural _ (Nat.lt_trans hlt (by decide)), pure_bind, if_pos hlt,
    UInt16.ofNat_toNat]

theorem word64_form (shows : Shows m form) (n : UInt64) :
    word64 (m := m) (form (.ofNat n.toNat)) = pure n := by
  have hlt : n.toNat < UInt64.size := n.toNat_lt
  rw [word64, shows.natural _ hlt, pure_bind, if_pos hlt, UInt64.ofNat_toNat]

end ControlPlane.Format
