import ControlPlane.Text.Pieces
import Mathlib.Data.List.Basic

/-!
# The order of texts

Texts are ordered by their code points, letter by letter. Whoever sorts the bytes of their UTF-8
encodings finds the same order, since the encoding of a character begins with a byte that grows with
its length and goes on with the digits of the code point, highest first.

The texts that begin alike stand together: a text that does not begin with `lead` lies before all of
them or after all of them.

## Main definitions

* `utf8Bytes`: the bytes of a text

## Main results

* `utf8Bytes_lt`: the order of the bytes is the order of the texts
* `append_lt_append_of_length_eq`: the first part decides between texts of one length
* `lt_or_begins_of_lt`: what lies below a text that begins with `lead`
-/

namespace ControlPlane

/-! ### Bytes -/

/-- The bytes of a text in UTF-8, by which keys are compared elsewhere. -/
def utf8Bytes (s : String) : List UInt8 := s.toByteArray.data.toList

theorem utf8Bytes_eq_flatMap (s : String) :
    utf8Bytes s = s.toList.flatMap String.utf8EncodeChar := by
  rw [utf8Bytes, ← String.utf8Encode_toList, List.utf8Encode, List.data_toByteArray]

/-- Bytes are compared one after the other: what follows counts only behind equal bytes. -/
theorem byte_cons_lt {a b : Nat} {x y : List UInt8} (hb : b < 256) (hle : a ≤ b)
    (h : a = b → x < y) : UInt8.ofNat a :: x < UInt8.ofNat b :: y := by
  rcases Nat.lt_or_eq_of_le hle with hlt | rfl
  · refine List.cons_lt_cons_iff.mpr (.inl ?_)
    rw [UInt8.lt_iff_toNat_lt, UInt8.toNat_ofNat', UInt8.toNat_ofNat']
    omega
  · exact List.cons_lt_cons_iff.mpr (.inr ⟨rfl, h rfl⟩)

/-- **A smaller character has the smaller encoding,** whatever comes after it. -/
theorem utf8EncodeChar_append_lt {c d : Char} (h : c < d) (x y : List UInt8) :
    String.utf8EncodeChar c ++ x < String.utf8EncodeChar d ++ y := by
  have hlt : c.val.toNat < d.val.toNat := h
  have hd : d.val.toNat < 0x110000 := by
    have hvalid := d.valid
    simp only [UInt32.isValidChar, Nat.isValidChar] at hvalid
    omega
  unfold String.utf8EncodeChar
  generalize c.val.toNat = v at *
  generalize d.val.toNat = w at *
  dsimp only
  -- of different lengths the first byte decides, of one length the digits do
  rcases Nat.lt_or_ge 127 v with hv | hv
  · rw [if_neg (Nat.not_le.mpr hv), if_neg (show ¬ w ≤ 127 by omega)]
    rcases Nat.lt_or_ge 2047 v with hv | hv
    · rw [if_neg (Nat.not_le.mpr hv), if_neg (show ¬ w ≤ 2047 by omega)]
      rcases Nat.lt_or_ge 65535 v with hv | hv
      · rw [if_neg (Nat.not_le.mpr hv), if_neg (show ¬ w ≤ 65535 by omega)]
        refine byte_cons_lt (by omega) (by omega) fun _ => ?_
        refine byte_cons_lt (by omega) (by omega) fun _ => ?_
        refine byte_cons_lt (by omega) (by omega) fun _ => ?_
        exact byte_cons_lt (by omega) (by omega) fun _ => by omega
      · rw [if_pos hv]
        split
        · refine byte_cons_lt (by omega) (by omega) fun _ => ?_
          refine byte_cons_lt (by omega) (by omega) fun _ => ?_
          exact byte_cons_lt (by omega) (by omega) fun _ => by omega
        · exact byte_cons_lt (by omega) (by omega) fun _ => by omega
    · rw [if_pos hv]
      split
      · refine byte_cons_lt (by omega) (by omega) fun _ => ?_
        exact byte_cons_lt (by omega) (by omega) fun _ => by omega
      · split <;> exact byte_cons_lt (by omega) (by omega) fun _ => by omega
  · rw [if_pos hv]
    split
    · exact byte_cons_lt (by omega) (by omega) fun _ => by omega
    · split
      · exact byte_cons_lt (by omega) (by omega) fun _ => by omega
      · split <;> exact byte_cons_lt (by omega) (by omega) fun _ => by omega

theorem utf8EncodeChar_ne_nil (c : Char) : String.utf8EncodeChar c ≠ [] := by
  intro h
  have hlength := congrArg List.length h
  rw [String.length_utf8EncodeChar] at hlength
  exact absurd hlength (Nat.ne_of_gt c.utf8Size_pos)

theorem flatMap_utf8EncodeChar_lt {a b : List Char} (h : a < b) :
    a.flatMap String.utf8EncodeChar < b.flatMap String.utf8EncodeChar := by
  induction a generalizing b with
  | nil =>
    cases b with
    | nil => exact absurd h (List.lt_irrefl [])
    | cons d b =>
      obtain ⟨byte, rest, hbyte⟩ := List.exists_cons_of_ne_nil (utf8EncodeChar_ne_nil d)
      rw [List.flatMap_nil, List.flatMap_cons, hbyte]
      exact List.nil_lt_cons _ _
  | cons c a ih =>
    cases b with
    | nil => exact absurd h (List.not_lt_nil _)
    | cons d b =>
      rw [List.flatMap_cons, List.flatMap_cons]
      rcases List.cons_lt_cons_iff.mp h with hlt | ⟨rfl, hrest⟩
      · exact utf8EncodeChar_append_lt hlt _ _
      · exact List.append_left_lt (ih hrest)

/-- **Texts in ascending order have their bytes in ascending order.** -/
theorem utf8Bytes_lt {s t : String} (h : s < t) : utf8Bytes s < utf8Bytes t := by
  have hlist : s.toList < t.toList := h
  rw [utf8Bytes_eq_flatMap, utf8Bytes_eq_flatMap]
  exact flatMap_utf8EncodeChar_lt hlist

/-! ### Texts that begin alike -/

/-- What lies below a text that begins with `lead` begins so too, or lies below `lead`. -/
theorem lt_or_begins_of_lt {lead x y : List Char} (h : x < lead ++ y) :
    x < lead ∨ (afterLead? lead x).isSome = true := by
  induction lead generalizing x with
  | nil => exact .inr rfl
  | cons c lead ih =>
    cases x with
    | nil => exact .inl (List.nil_lt_cons c lead)
    | cons d x =>
      rcases List.cons_lt_cons_iff.mp h with hlt | ⟨rfl, hrest⟩
      · exact .inl (List.cons_lt_cons_iff.mpr (.inl hlt))
      · rcases ih hrest with hbelow | hbegins
        · exact .inl (List.cons_lt_cons_iff.mpr (.inr ⟨rfl, hbelow⟩))
        · rw [afterLead?, if_pos rfl]
          exact .inr hbegins

/-- Between texts of one length, what comes behind them does not count. -/
theorem append_lt_append_of_length_eq {a b : List Char} (h : a < b) (hlength : a.length = b.length)
    (x y : List Char) : a ++ x < b ++ y := by
  induction a generalizing b with
  | nil =>
    rw [List.length_eq_zero_iff.mp hlength.symm] at h
    exact absurd h (List.lt_irrefl [])
  | cons c a ih =>
    cases b with
    | nil => exact absurd h (List.not_lt_nil _)
    | cons d b =>
      rcases List.cons_lt_cons_iff.mp h with hlt | ⟨rfl, hrest⟩
      · exact List.cons_lt_cons_iff.mpr (.inl hlt)
      · exact List.cons_lt_cons_iff.mpr (.inr ⟨rfl, ih hrest (Nat.succ.inj hlength)⟩)

/-- What texts have in common at their beginning does not decide. -/
theorem append_lt_append_left_iff (lead x y : List Char) : lead ++ x < lead ++ y ↔ x < y := by
  induction lead with
  | nil => exact Iff.rfl
  | cons c lead ih => exact (List.cons_lt_cons_self ..).trans ih

/-- A text is not below what it begins with. -/
theorem not_append_lt (lead rest : List Char) : ¬ lead ++ rest < lead := by
  induction lead with
  | nil => exact List.not_lt_nil _
  | cons c lead ih =>
    intro h
    rcases List.cons_lt_cons_iff.mp h with hlt | ⟨-, hrest⟩
    · exact Char.lt_irrefl c hlt
    · exact ih hrest

end ControlPlane
