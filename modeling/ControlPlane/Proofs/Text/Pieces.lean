import ControlPlane.Text.Pieces
import Mathlib.Data.List.TakeWhile

/-!
# Replacing and cutting, position by position

`replaceAll` and `splitText` pass over a match with a counter, which is convenient to run and
inconvenient to reason about. The lemmas here say what they do at the head of a text: a match is
taken as a whole, and anything else costs one character. Nothing downstream mentions the counter.

`afterLast`, `splitLast?` and `trimEnd` work from the end of a text, so they turn it around. What
they find is said by the text itself: what stands behind the last character of a kind has no such
character in it. For `occursIn` there is nothing to say but that the text has the part in it.
-/

namespace ControlPlane

variable {old new text : List Char}

/-! ### Replacing -/

/-- Passing over characters is dropping them. The counter is there only for the recursion to go one
character at a time. -/
theorem replaceFrom_eq_drop (old new : List Char) (skip : Nat) (text : List Char) :
    replaceFrom old new skip text = replaceAll old new (text.drop skip) := by
  induction text generalizing skip with
  | nil => cases skip <;> rfl
  | cons c text ih =>
    cases skip with
    | zero => rfl
    | succ skip => simpa [replaceFrom] using ih skip

@[simp] theorem replaceAll_nil : replaceAll old new [] = [] := rfl

theorem replaceAll_cons_of_mismatch {c : Char} (h : old.isPrefixOf (c :: text) = false) :
    replaceAll old new (c :: text) = c :: replaceAll old new text := by
  simp [replaceAll, replaceFrom, h]

/-- An occurrence at the head is replaced as a whole. -/
theorem replaceAll_append (hold : old ≠ []) :
    replaceAll old new (old ++ text) = new ++ replaceAll old new text := by
  obtain ⟨c, rest, rfl⟩ := List.exists_cons_of_ne_nil hold
  have hprefix : (c :: rest).isPrefixOf (c :: (rest ++ text)) = true := by
    rw [List.isPrefixOf_iff_prefix]
    exact ⟨text, rfl⟩
  rw [List.cons_append, replaceAll, replaceFrom, if_pos hprefix, replaceFrom_eq_drop]
  simp

/-- Replacing a single character acts on each character by itself. -/
theorem replaceAll_singleton (c : Char) (new text : List Char) :
    replaceAll [c] new text = text.flatMap fun d => if d = c then new else [d] := by
  induction text with
  | nil => rfl
  | cons d text ih =>
    by_cases h : d = c
    · subst h
      rw [List.flatMap_cons, if_pos rfl, ← ih]
      exact replaceAll_append (List.cons_ne_nil d [])
    · have hprefix : [c].isPrefixOf (d :: text) = false := by
        simp [List.isPrefixOf, beq_eq_false_iff_ne.mpr (Ne.symm h)]
      rw [replaceAll_cons_of_mismatch hprefix, ih, List.flatMap_cons, if_neg h]
      rfl

/-- No occurrence lies across the joint of the two texts. -/
def NoneAcross (old before behind : List Char) : Prop :=
  ∀ tail, tail <:+ before → tail ≠ [] → old <+: tail ++ behind → old <+: tail

/-- **Where no occurrence lies across the joint, each side is replaced on its own.** -/
theorem replaceAll_append_of_noneAcross {before behind : List Char}
    (h : NoneAcross old before behind) :
    replaceAll old new (before ++ behind) =
      replaceAll old new before ++ replaceAll old new behind := by
  -- what is passed over at the beginning belongs to an occurrence inside `before`
  have key : ∀ skip, skip ≤ before.length → replaceFrom old new skip (before ++ behind) =
      replaceFrom old new skip before ++ replaceAll old new behind := by
    induction before with
    | nil =>
      intro skip hskip
      obtain rfl : skip = 0 := Nat.le_zero.mp hskip
      rfl
    | cons c before ih =>
      intro skip hskip
      have hrest : NoneAcross old before behind := fun tail htail =>
        h tail (htail.trans (List.suffix_cons c before))
      cases skip with
      | succ skip => exact ih hrest skip (Nat.le_of_succ_le_succ hskip)
      | zero =>
        have hsame : old.isPrefixOf (c :: (before ++ behind)) = old.isPrefixOf (c :: before) := by
          rw [Bool.eq_iff_iff, List.isPrefixOf_iff_prefix, List.isPrefixOf_iff_prefix]
          exact ⟨h (c :: before) List.suffix_rfl (List.cons_ne_nil c before),
            List.prefix_append_of_prefix⟩
        rw [List.cons_append, replaceFrom, replaceFrom, hsame]
        split
        · rename_i hprefix
          have hlength : old.length - 1 ≤ before.length :=
            Nat.sub_le_of_le_add (List.isPrefixOf_iff_prefix.mp hprefix).length_le
          rw [ih hrest _ hlength, List.append_assoc]
        · rw [ih hrest 0 (Nat.zero_le _), List.cons_append]
  exact key 0 (Nat.zero_le _)

/-! ### Cutting -/

variable {separator : List Char}

theorem splitFrom_eq_drop (separator piece : List Char) (skip : Nat) (text : List Char) :
    splitFrom separator piece skip text = splitFrom separator piece 0 (text.drop skip) := by
  induction text generalizing skip with
  | nil => cases skip <;> rfl
  | cons c text ih =>
    cases skip with
    | zero => rfl
    | succ skip => simpa [splitFrom] using ih skip

theorem splitFrom_cons_of_mismatch {piece : List Char} {c : Char}
    (h : separator.isPrefixOf (c :: text) = false) :
    splitFrom separator piece 0 (c :: text) = splitFrom separator (c :: piece) 0 text := by
  simp [splitFrom, h]

theorem splitFrom_append {piece : List Char} (h : separator ≠ []) :
    splitFrom separator piece 0 (separator ++ text) =
      piece.reverse :: splitText separator text := by
  obtain ⟨c, rest, rfl⟩ := List.exists_cons_of_ne_nil h
  have hprefix : (c :: rest).isPrefixOf (c :: (rest ++ text)) = true := by
    rw [List.isPrefixOf_iff_prefix]
    exact ⟨text, rfl⟩
  rw [List.cons_append, splitFrom, if_pos hprefix, splitFrom_eq_drop]
  simp [splitText]

/-- There is always at least one piece. -/
theorem length_splitFrom_pos (separator piece : List Char) (skip : Nat) (text : List Char) :
    0 < (splitFrom separator piece skip text).length := by
  induction text generalizing piece skip with
  | nil => simp [splitFrom]
  | cons c text ih =>
    cases skip with
    | succ skip => exact ih piece skip
    | zero =>
      rw [splitFrom]
      split
      · exact Nat.succ_pos _
      · exact ih (c :: piece) 0

/-- A text without a separator is one piece. -/
theorem splitFrom_of_absent {piece : List Char} (h : ¬ separator <:+: text) :
    splitFrom separator piece 0 text = [piece.reverse ++ text] := by
  induction text generalizing piece with
  | nil => simp [splitFrom]
  | cons c text ih =>
    rw [List.infix_cons_iff, not_or] at h
    have hhead : separator.isPrefixOf (c :: text) = false :=
      Bool.eq_false_iff.mpr fun hprefix => h.1 (List.isPrefixOf_iff_prefix.mp hprefix)
    rw [splitFrom_cons_of_mismatch hhead, ih h.2]
    simp

/-- `first` stands before the first separator of a text: with the separator behind it, there is no
other separator up to the last character. -/
def BeforeFirst (separator first : List Char) : Prop := ¬ separator <:+: first ++ separator.dropLast

/-- Behind at least one character, all but the last character of a separator decide whether a
separator begins before it. -/
theorem prefix_cons_iff (c : Char) (first rest : List Char) :
    separator <+: c :: (first ++ (separator ++ rest)) ↔
      separator <+: c :: (first ++ separator.dropLast) := by
  have hshort : c :: (first ++ separator.dropLast) <+: c :: (first ++ (separator ++ rest)) :=
    (List.prefix_append_right_inj (c :: first)).mpr
      ((List.dropLast_prefix separator).trans (List.prefix_append separator rest))
  refine ⟨fun h => List.prefix_of_prefix_length_le h hshort ?_, fun h => h.trans hshort⟩
  rw [List.length_cons, List.length_append, List.length_dropLast]
  omega

/-- **The first piece ends at the first separator,** which begins where no earlier separator
overlaps it. -/
theorem splitFrom_of_beforeFirst {piece first : List Char} (hseparator : separator ≠ [])
    (h : BeforeFirst separator first) :
    splitFrom separator piece 0 (first ++ (separator ++ text)) =
      (piece.reverse ++ first) :: splitText separator text := by
  induction first generalizing piece with
  | nil =>
    have hcut : splitFrom separator piece 0 (separator ++ text) = _ := splitFrom_append hseparator
    simpa using hcut
  | cons c first ih =>
    rw [BeforeFirst, List.cons_append, List.infix_cons_iff, not_or] at h
    have hhead : separator.isPrefixOf (c :: (first ++ (separator ++ text))) = false :=
      Bool.eq_false_iff.mpr fun hprefix =>
        h.1 ((prefix_cons_iff c first text).mp (List.isPrefixOf_iff_prefix.mp hprefix))
    rw [List.cons_append, splitFrom_cons_of_mismatch hhead, ih h.2]
    simp

/-- A text with a separator has a first one. -/
theorem exists_beforeFirst (hseparator : separator ≠ []) (h : separator <:+: text) :
    ∃ first rest, text = first ++ (separator ++ rest) ∧ BeforeFirst separator first := by
  induction text with
  | nil => exact absurd (List.infix_nil.mp h) hseparator
  | cons c text ih =>
    by_cases hprefix : separator <+: c :: text
    · obtain ⟨rest, hrest⟩ := hprefix
      refine ⟨[], rest, hrest.symm, fun hinfix => ?_⟩
      have hlength := hinfix.length_le
      rw [List.nil_append, List.length_dropLast] at hlength
      have hpos := List.length_pos_iff.mpr hseparator
      omega
    · obtain ⟨first, rest, rfl, hfirst⟩ := ih ((List.infix_cons_iff.mp h).resolve_left hprefix)
      refine ⟨c :: first, rest, rfl, fun hinfix => ?_⟩
      rcases List.infix_cons_iff.mp hinfix with hhead | htail
      · exact hprefix ((prefix_cons_iff c first rest).mpr hhead)
      · exact hfirst htail

/-! ### Trimming -/

section

variable {c : Char}

theorem exists_eq_trimEnd_append (c : Char) (text : List Char) :
    ∃ tail, (∀ d ∈ tail, d = c) ∧ text = trimEnd c text ++ tail := by
  refine ⟨(text.reverse.takeWhile (· == c)).reverse, ?_, ?_⟩
  · intro d hd
    have hall := List.all_eq_true.mp (List.all_takeWhile (p := (· == c)) (l := text.reverse)) d
      (List.mem_reverse.mp hd)
    exact beq_iff_eq.mp hall
  · rw [trimEnd, ← List.reverse_append, List.takeWhile_append_dropWhile, List.reverse_reverse]

/-- Nothing more can be trimmed off. -/
theorem getLast?_trimEnd_ne (c : Char) (text : List Char) : (trimEnd c text).getLast? ≠ some c := by
  intro h
  rw [trimEnd, List.getLast?_reverse] at h
  have hnot := List.head?_dropWhile_not (· == c) text.reverse
  rw [h] at hnot
  simp at hnot

/-- A text that does not end in `c` is what is left of it when any number of `c` is put behind. -/
theorem trimEnd_append {base tail : List Char} (htail : ∀ d ∈ tail, d = c)
    (hbase : base.getLast? ≠ some c) : trimEnd c (base ++ tail) = base := by
  have hall : ∀ d ∈ tail.reverse, (d == c) = true :=
    fun d hd => beq_iff_eq.mpr (htail d (List.mem_reverse.mp hd))
  rw [trimEnd, List.reverse_append, List.dropWhile_append_of_pos hall]
  cases hrev : base.reverse with
  | nil => simpa using hrev.symm
  | cons d rest =>
    have hd : ¬ (d == c) = true := by
      intro heq
      obtain rfl := beq_iff_eq.mp heq
      exact hbase (by rw [← List.head?_reverse, hrev, List.head?_cons])
    rw [List.dropWhile_cons, if_neg hd, ← hrev, List.reverse_reverse]

/-- Of a text that does not end in `c` nothing is trimmed off. -/
theorem trimEnd_eq_self {base : List Char} (hbase : base.getLast? ≠ some c) :
    trimEnd c base = base := by
  have hnone : ∀ d ∈ ([] : List Char), d = c := nofun
  simpa using trimEnd_append hnone hbase

end

/-! ### The last part -/

section

variable {c d : Char} {last tail : List Char}

/-- `last` is the part of a text behind its last `c`, or the whole text where there is no `c`. -/
def IsLast (c : Char) (text last : List Char) : Prop :=
  c ∉ last ∧ (text = last ∨ ∃ front, text = front ++ c :: last)

theorem forall_reverse_ne (h : c ∉ text) : ∀ d ∈ text.reverse, (d != c) = true :=
  fun _ hd => bne_iff_ne.mpr fun heq => h (heq ▸ List.mem_reverse.mp hd)

theorem afterLast_append (front : List Char) (h : c ∉ last) :
    afterLast c (front ++ c :: last) = last := by
  rw [afterLast, List.reverse_append, List.reverse_cons, List.append_assoc,
    List.takeWhile_append_of_pos (forall_reverse_ne h)]
  simp

theorem afterLast_of_notMem (h : c ∉ text) : afterLast c text = text := by
  rw [afterLast, List.takeWhile_eq_self_iff.mpr (forall_reverse_ne h), List.reverse_reverse]

theorem splitLast?_append (front : List Char) (h : c ∉ last) :
    splitLast? c (front ++ c :: last) = some (front, last) := by
  rw [splitLast?, afterLast_append front h, List.reverse_append, List.reverse_cons,
    List.append_assoc, List.dropWhile_append_of_pos (forall_reverse_ne h)]
  simp

theorem splitLast?_of_notMem (h : c ∉ text) : splitLast? c text = none := by
  rw [splitLast?, List.dropWhile_eq_nil_iff.mpr (forall_reverse_ne h)]

/-- Whatever stands in a text stands there for a last time. -/
theorem exists_eq_append_last (h : c ∈ text) :
    ∃ front last, text = front ++ c :: last ∧ c ∉ last := by
  obtain ⟨behind, before, hreverse, hnone⟩ :=
    List.eq_append_cons_of_mem (List.mem_reverse.mpr h)
  refine ⟨before.reverse, behind.reverse, ?_, fun hmem => hnone (List.mem_reverse.mp hmem)⟩
  rw [← List.reverse_reverse text, hreverse]
  simp

/-- **Every text has one last part,** which is what the search from the end of the text finds. -/
theorem isLast_iff : IsLast c text last ↔ afterLast c text = last := by
  constructor
  · rintro ⟨hnone, rfl | ⟨front, rfl⟩⟩
    · exact afterLast_of_notMem hnone
    · exact afterLast_append front hnone
  · rintro rfl
    by_cases h : c ∈ text
    · obtain ⟨front, last, rfl, hnone⟩ := exists_eq_append_last h
      rw [afterLast_append front hnone]
      exact ⟨hnone, .inr ⟨front, rfl⟩⟩
    · rw [afterLast_of_notMem h]
      exact ⟨h, .inl rfl⟩

instance (c : Char) (text last : List Char) : Decidable (IsLast c text last) :=
  decidable_of_iff _ isLast_iff.symm

theorem IsLast.subset (h : IsLast c text last) : last ⊆ text := by
  rcases h.2 with rfl | ⟨front, rfl⟩
  · exact List.Subset.refl _
  · exact fun _ hd => List.mem_append_right _ (List.mem_cons_of_mem c hd)

/-- The last `d` stands in the part behind the last `c` if and only if no `c` follows it. -/
theorem IsLast.mem_iff {front : List Char} (h : IsLast c (front ++ d :: tail) last) (hne : d ≠ c)
    (htail : d ∉ tail) : d ∈ last ↔ c ∉ tail := by
  rw [isLast_iff] at h
  by_cases hc : c ∈ tail
  · obtain ⟨before, behind, rfl, hbehind⟩ := exists_eq_append_last hc
    rw [← List.cons_append, ← List.append_assoc, afterLast_append _ hbehind] at h
    refine iff_of_false (fun hd => htail ?_) (not_not_intro hc)
    rw [← h] at hd
    exact List.mem_append_right _ (List.mem_cons_of_mem c hd)
  · refine iff_of_true ?_ hc
    by_cases hfront : c ∈ front
    · obtain ⟨before, behind, rfl, hbehind⟩ := exists_eq_append_last hfront
      have hflat : c ∉ behind ++ d :: tail := by simp [hbehind, hc, hne.symm]
      rw [List.append_assoc, List.cons_append, afterLast_append before hflat] at h
      simp [← h]
    · have hflat : c ∉ front ++ d :: tail := by simp [hfront, hc, hne.symm]
      rw [afterLast_of_notMem hflat] at h
      simp [← h]

end

/-! ### Looking for a part -/

/-- **A part is found where it occurs,** at whatever place of the text, and nowhere else. -/
theorem occursIn_iff {part text : List Char} : occursIn part text = true ↔ part <:+: text := by
  induction text with
  | nil => rw [occursIn, List.isEmpty_iff, List.infix_nil]
  | cons c text ih =>
    rw [occursIn, Bool.or_eq_true, List.isPrefixOf_iff_prefix, ih, List.infix_cons_iff]

end ControlPlane
