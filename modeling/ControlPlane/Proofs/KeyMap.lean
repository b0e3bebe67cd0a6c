import ControlPlane.KeyMap
import Mathlib.Data.List.Induction
import Mathlib.Data.List.Sort

/-!
# Looking things up in a map

A map is determined by what is under each key. The lemmas here say what that is after a map was
filtered or built from a list, and that what is looked up and what is listed agree.

## Main results

* `KeyMap.get?_eq_some_iff`: values are found under the keys that they are listed with
* `KeyMap.ext_get?`: a map is determined by what is found
* `KeyMap.get?_filter`, `KeyMap.get?_filterKeys`, `KeyMap.get?_erase`
* `KeyMap.ofList_entries`: a map is the map of its entries
* `KeyMap.get?_ofList_eq_some_iff`: of two entries with one key the later one counts
-/

namespace ControlPlane.KeyMap

variable {α : Type}

/-- In an ascending list every key stands once. -/
theorem lookup_eq_some_iff {entries : List (String × α)} (h : Ascending entries) {key : String}
    {value : α} : entries.lookup key = some value ↔ (key, value) ∈ entries := by
  induction entries with
  | nil => simp
  | cons entry entries ih =>
    obtain ⟨hhead, hrest⟩ := List.pairwise_cons.mp h
    obtain ⟨k, v⟩ := entry
    rw [List.lookup_cons]
    by_cases hkey : key = k
    · subst hkey
      have hnot : (key, value) ∉ entries := fun hmem =>
        String.lt_irrefl key (hhead (key, value) hmem)
      simp [hnot, eq_comm]
    · simp [beq_eq_false_iff_ne.mpr hkey, hkey, ih hrest]

/-- **A value is found under the key that it is listed with.** -/
theorem get?_eq_some_iff {m : KeyMap α} {key : String} {value : α} :
    m.get? key = some value ↔ (key, value) ∈ m.entries :=
  lookup_eq_some_iff m.ascending

theorem mem_keys_iff {m : KeyMap α} {key : String} : key ∈ m.keys ↔ (m.get? key).isSome = true := by
  rw [keys, List.mem_map, Option.isSome_iff_exists]
  constructor
  · rintro ⟨⟨k, v⟩, hmem, rfl⟩
    exact ⟨v, get?_eq_some_iff.mpr hmem⟩
  · rintro ⟨v, hv⟩
    exact ⟨(key, v), get?_eq_some_iff.mp hv, rfl⟩

/-- **A map is determined by what is under each key.** -/
theorem ext_get? {m n : KeyMap α} (h : ∀ key, m.get? key = n.get? key) : m = n := by
  have : Std.Irrefl fun a b : String × α => a.1 < b.1 := ⟨fun a => String.lt_irrefl a.1⟩
  have : Std.Antisymm fun a b : String × α => a.1 < b.1 :=
    ⟨fun a b hab hba => absurd hba (String.lt_asymm hab)⟩
  refine ext (List.Pairwise.eq_of_mem_iff m.ascending n.ascending fun ⟨key, value⟩ => ?_)
  rw [← get?_eq_some_iff, ← get?_eq_some_iff, h]

theorem nodup_keys (m : KeyMap α) : m.keys.Nodup := by
  refine List.pairwise_map.mpr (List.Pairwise.imp ?_ m.ascending)
  rintro a b hlt heq
  rw [heq] at hlt
  exact String.lt_irrefl _ hlt

/-- What is filtered is what is found and kept. -/
theorem get?_filter (m : KeyMap α) (keep : String → α → Bool) (key : String) :
    (m.filter keep).get? key = (m.get? key).filter (keep key) := by
  refine Option.ext fun v => ?_
  rw [get?_eq_some_iff, Option.filter_eq_some_iff, get?_eq_some_iff, filter, List.mem_filter]

theorem get?_filterKeys (m : KeyMap α) (keep : String → Bool) (key : String) :
    (m.filterKeys keep).get? key = if keep key then m.get? key else none := by
  have hfilter := get?_filter m (fun k _ => keep k) key
  rw [show m.filterKeys keep = m.filter fun k _ => keep k from rfl, hfilter]
  cases hkeep : keep key with
  | true => cases m.get? key <;> rfl
  | false => cases m.get? key <;> rfl

theorem get?_erase (m : KeyMap α) (key k : String) :
    (m.erase key).get? k = if k = key then none else m.get? k := by
  rw [erase, get?_filterKeys]
  by_cases hkey : k = key <;> simp [hkey]

/-! ### Maps of lists -/

/-- A key above all others goes to the end. -/
theorem place_eq_append {key : String} {value : α} {entries : List (String × α)}
    (h : ∀ entry ∈ entries, entry.1 < key) :
    place key value entries = entries ++ [(key, value)] := by
  induction entries with
  | nil => rfl
  | cons entry entries ih =>
    have hlt := h entry (List.mem_cons_self ..)
    rw [place, if_neg (String.lt_asymm hlt),
      if_neg fun heq => String.lt_irrefl _ (heq ▸ hlt),
      ih fun e he => h e (List.mem_cons_of_mem entry he)]
    rfl

theorem entries_foldl_insert (m : KeyMap α) (entries : List (String × α))
    (h : Ascending (m.entries ++ entries)) :
    (entries.foldl (fun m entry => m.insert entry.1 entry.2) m).entries = m.entries ++ entries := by
  induction entries generalizing m with
  | nil => simp
  | cons entry entries ih =>
    have hplace : (m.insert entry.1 entry.2).entries = m.entries ++ [entry] := by
      refine place_eq_append fun e he => ?_
      exact (List.pairwise_append.mp h).2.2 e he entry (List.mem_cons_self ..)
    rw [List.foldl_cons, ih, hplace]
    · simp
    · rw [hplace, List.append_assoc]
      exact h

/-- **A map is the map of its entries,** so a map that was written as a list and read again is the
same map. -/
theorem ofList_entries (m : KeyMap α) : ofList m.entries = m := by
  apply ext
  have h := entries_foldl_insert empty m.entries (by simpa using m.ascending)
  rwa [entries_empty, List.nil_append] at h

/-- Whoever looks a key up in the map of a list looks through the list from its end. -/
theorem get?_ofList (entries : List (String × α)) (key : String) :
    (ofList entries).get? key = entries.reverse.lookup key := by
  induction entries using List.reverseRecOn with
  | nil => rfl
  | append_singleton entries entry ih =>
    have hlast : ofList (entries ++ [entry]) = (ofList entries).insert entry.1 entry.2 :=
      List.foldl_concat ..
    rw [hlast, get?_insert, ih, List.reverse_concat, List.lookup_cons]
    by_cases hkey : key = entry.1
    · simp [hkey]
    · simp [hkey, beq_eq_false_iff_ne.mpr hkey]

/-- **Of two entries with one key the later one counts.** -/
theorem get?_ofList_eq_some_iff {entries : List (String × α)} {key : String} {value : α} :
    (ofList entries).get? key = some value ↔ ∃ before after,
      entries = before ++ (key, value) :: after ∧ ∀ entry ∈ after, entry.1 ≠ key := by
  rw [get?_ofList, List.lookup_eq_some_iff]
  constructor
  · rintro ⟨after, before, hentries, hafter⟩
    refine ⟨before.reverse, after.reverse, ?_, fun entry hentry heq => ?_⟩
    · rw [← entries.reverse_reverse, hentries]
      simp
    · simpa [heq] using hafter entry (List.mem_reverse.mp hentry)
  · rintro ⟨before, after, rfl, hafter⟩
    refine ⟨after.reverse, before.reverse, by simp, fun entry hentry => ?_⟩
    exact bne_iff_ne.mpr (hafter entry (List.mem_reverse.mp hentry)).symm

end ControlPlane.KeyMap
