import ControlPlane.Proofs.Text.Order
import ControlPlane.Text.Digits
import Mathlib.Algebra.Group.Nat.Defs

/-!
# Reading digits back

The decimal digits of a number, read by any reader of digits, give the number again, and so do its
hexadecimal ones and those of a small code unit. Padded to one width, numbers stand in their order.

## Main results

* `numeral?_toDigits`: decimal digits
* `paddedText_lt`: numbers of one width stand in their order
* `numeral?_hexText`: hexadecimal digits
* `numeral?_unitDigits`: the four digits of an escaped control character
-/

namespace ControlPlane

theorem numeral?_append_singleton {base n d : Nat} {digit? : Char → Option Nat} {digits : List Char}
    {c : Char} (h : numeral? base digit? digits = some n) (hc : digit? c = some d) :
    numeral? base digit? (digits ++ [c]) = some (n * base + d) := by
  cases digits with
  | nil => cases h
  | cons c' digits =>
    change (c' :: digits).foldl _ (some 0) = some n at h
    change ((c' :: digits) ++ [c]).foldl _ (some 0) = _
    rw [List.foldl_append, h]
    simp [hc]

theorem numeral?_singleton {base d : Nat} {digit? : Char → Option Nat} {c : Char}
    (hc : digit? c = some d) : numeral? base digit? [c] = some d := by
  simp [numeral?, hc]

/-- **Decimal digits** are read back by every reader that knows the ten digits. -/
theorem numeral?_toDigits {digit? : Char → Option Nat}
    (hdigit : ∀ d < 10, digit? (Nat.digitChar d) = some d) (n : Nat) :
    numeral? 10 digit? (Nat.toDigits 10 n) = some n := by
  induction n using Nat.strongRecOn with
  | ind n ih =>
    rcases Nat.lt_or_ge n 10 with hn | hn
    · rw [Nat.toDigits_of_lt_base hn]
      exact numeral?_singleton (hdigit n hn)
    · rw [Nat.toDigits_of_base_le (by decide) hn]
      have hrest := ih (n / 10) (Nat.div_lt_self (by omega) (by decide))
      rw [numeral?_append_singleton hrest (hdigit _ (Nat.mod_lt n (by decide)))]
      congr 1
      omega

theorem digitValue?_digitChar : ∀ d < 10, digitValue? (Nat.digitChar d) = some d := by
  decide

theorem toDigits_inj {m n : Nat} : Nat.toDigits 10 m = Nat.toDigits 10 n ↔ m = n := by
  refine ⟨fun h => ?_, congrArg _⟩
  have hread := numeral?_toDigits digitValue?_digitChar m
  rw [h, numeral?_toDigits digitValue?_digitChar n] at hread
  exact (Option.some.inj hread).symm

theorem digitValue?_of_mem_toDigits {n : Nat} {c : Char} (h : c ∈ Nat.toDigits 10 n) :
    (digitValue? c).isSome = true := by
  have hc := Char.isDigit_iff_toNat.mp (Nat.isDigit_of_mem_toDigits (by decide) (by decide) h)
  have hrange : ('0' ≤ c && c ≤ '9') = true := by
    simp only [Bool.and_eq_true, decide_eq_true_eq, Char.le_def, UInt32.le_iff_toNat_le]
    exact hc
  simp [digitValue?, hrange]

/-- Only zero begins with a zero. -/
theorem head?_toDigits_ne_zero {n : Nat} (h : 0 < n) : (Nat.toDigits 10 n).head? ≠ some '0' := by
  induction n using Nat.strongRecOn with
  | ind n ih =>
    rcases Nat.lt_or_ge n 10 with hn | hn
    · rw [Nat.toDigits_of_lt_base hn]
      have hdigit : ∀ d < 10, 0 < d → [Nat.digitChar d].head? ≠ some '0' := by decide
      exact hdigit n hn h
    · have hrest := ih (n / 10) (Nat.div_lt_self (by omega) (by decide)) (by omega)
      obtain ⟨c, digits, hdigits⟩ := List.exists_cons_of_ne_nil (Nat.toDigits_ne_nil (n := n / 10))
      rw [Nat.toDigits_of_base_le (by decide) hn, hdigits]
      rwa [hdigits] at hrest

theorem toDigits_zero_or_head? (n : Nat) :
    n = 0 ∧ Nat.toDigits 10 n = ['0'] ∨ (Nat.toDigits 10 n).head? ≠ some '0' := by
  cases n with
  | zero => exact .inl ⟨rfl, Nat.toDigits_zero 10⟩
  | succ n => exact .inr (head?_toDigits_ne_zero (Nat.succ_pos n))

/-! ### Numbers of a fixed width -/

theorem paddedText_succ_succ (width n : Nat) :
    paddedText (width + 2) n = paddedText (width + 1) (n / 10) ++ [Nat.digitChar (n % 10)] := by
  rcases Nat.lt_or_ge n 10 with hn | hn
  · rw [Nat.div_eq_of_lt hn, Nat.mod_eq_of_lt hn, paddedText, paddedText,
      Nat.toDigits_of_lt_base hn, Nat.toDigits_zero]
    simp [List.replicate_succ']
  · simp only [paddedText, Nat.toDigits_of_base_le (by decide) hn, List.length_append,
      List.length_singleton, ← List.append_assoc]
    rw [show width + 2 - ((Nat.toDigits 10 (n / 10)).length + 1) =
      width + 1 - (Nat.toDigits 10 (n / 10)).length by omega]

theorem paddedText_one {n : Nat} (hn : n < 10) : paddedText 1 n = [Nat.digitChar n] := by
  rw [paddedText, Nat.toDigits_of_lt_base hn]
  rfl

theorem length_paddedText {width n : Nat} (hn : n < 10 ^ (width + 1)) :
    (paddedText (width + 1) n).length = width + 1 := by
  induction width generalizing n with
  | zero => rw [paddedText_one hn]; rfl
  | succ width ih =>
    rw [paddedText_succ_succ, List.length_append, ih (by rw [Nat.pow_succ] at hn; omega)]
    rfl

theorem isDigit_of_mem_paddedText {width n : Nat} {c : Char} (h : c ∈ paddedText width n) :
    c.isDigit = true := by
  rcases List.mem_append.mp h with hzero | hdigit
  · rw [List.eq_of_mem_replicate hzero]
    rfl
  · exact Nat.isDigit_of_mem_toDigits (by decide) (by decide) hdigit

/-- **Of two numbers of one width the smaller one has the smaller text.** -/
theorem paddedText_lt {width m n : Nat} (h : m < n) (hn : n < 10 ^ (width + 1)) :
    paddedText (width + 1) m < paddedText (width + 1) n := by
  have hdigit : ∀ d < 10, ∀ c < d, Nat.digitChar c < Nat.digitChar d := by decide
  induction width generalizing m n with
  | zero =>
    rw [paddedText_one hn, paddedText_one (Nat.lt_trans h hn)]
    exact List.cons_lt_cons_iff.mpr (.inl (hdigit n hn m h))
  | succ width ih =>
    have hhigh : n / 10 < 10 ^ (width + 1) := by
      rw [Nat.pow_succ] at hn
      omega
    rw [paddedText_succ_succ, paddedText_succ_succ]
    -- the digits before the last one decide, unless they are the same
    rcases Nat.lt_or_eq_of_le (Nat.div_le_div_right (c := 10) (Nat.le_of_lt h)) with hlt | heq
    · refine append_lt_append_of_length_eq (ih hlt hhigh) ?_ _ _
      rw [length_paddedText hhigh, length_paddedText (Nat.lt_trans hlt hhigh)]
    · rw [heq]
      refine List.append_left_lt (List.cons_lt_cons_iff.mpr (.inl ?_))
      exact hdigit _ (Nat.mod_lt n (by decide)) _ (by omega)

theorem paddedText_inj {width m n : Nat} (hm : m < 10 ^ (width + 1)) (hn : n < 10 ^ (width + 1)) :
    paddedText (width + 1) m = paddedText (width + 1) n ↔ m = n := by
  refine ⟨fun heq => ?_, congrArg _⟩
  rcases Nat.lt_trichotomy m n with hlt | rfl | hlt
  · exact absurd (heq ▸ paddedText_lt hlt hn) (List.lt_irrefl _)
  · rfl
  · exact absurd (heq ▸ paddedText_lt hlt hm) (List.lt_irrefl _)

/-! ### Hexadecimal digits -/

theorem hexValue?_hexDigit : ∀ d < 16, hexValue? (hexDigit d) = some d := by
  decide

/-- The digits that are there already stay behind the new ones. -/
theorem hexFrom_eq_append (digits : List Char) (room n : Nat) :
    hexFrom digits room n = hexFrom [] room n ++ digits := by
  induction room generalizing digits n with
  | zero => rfl
  | succ room ih =>
    rw [hexFrom, hexFrom]
    split
    · rfl
    · rw [ih (hexDigit (n % 16) :: digits), ih [hexDigit (n % 16)], List.append_assoc,
        List.singleton_append]

theorem numeral?_hexFrom {room n : Nat} (hroom : room ≠ 0) (hn : n < 16 ^ room) :
    numeral? 16 hexValue? (hexFrom [] room n) = some n := by
  induction room generalizing n with
  | zero => exact absurd rfl hroom
  | succ room ih =>
    rw [hexFrom]
    split
    · rename_i hsmall
      exact numeral?_singleton (hexValue?_hexDigit n hsmall)
    · rename_i hlarge
      have hrest : n / 16 < 16 ^ room := by
        rw [Nat.pow_succ] at hn
        omega
      have hroom' : room ≠ 0 := by
        rintro rfl
        rw [Nat.pow_zero] at hrest
        omega
      rw [hexFrom_eq_append, numeral?_append_singleton (ih hroom' hrest)
        (hexValue?_hexDigit _ (Nat.mod_lt n (by decide)))]
      congr 1
      omega

/-- **Hexadecimal digits** are read back as long as there are at most sixteen. -/
theorem numeral?_hexText {n : Nat} (hn : n < 16 ^ 16) :
    numeral? 16 hexValue? (hexText n) = some n :=
  numeral?_hexFrom (by decide) hn

/-- The four hexadecimal digits of a code unit, with zeros in front. -/
def unitDigits (unit : Nat) : List Char :=
  [hexDigit (unit / 4096 % 16), hexDigit (unit / 256 % 16), hexDigit (unit / 16 % 16),
    hexDigit (unit % 16)]

theorem numeral?_unitDigits :
    ∀ unit < 0x20, numeral? 16 hexValue? (unitDigits unit) = some unit := by
  decide

end ControlPlane
