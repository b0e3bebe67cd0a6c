import ControlPlane.Proofs.Format
import ControlPlane.Proofs.Yaml.Composing
import ControlPlane.Yaml.Format

/-!
# YAML documents show what was written

The node of a JSON value shows the value: its text, its number below `2 ^ 64`, its truth value, its
items and its fields. Nothing is followed on the way, since such nodes contain no aliases.

## Main results

* `natural?_toDigits`: decimal numbers
* `shows_yaml`: all kinds of values
-/

namespace ControlPlane.Yaml

open Json

/-! ### Numbers -/

/-- A decimal number is not taken for one in another base. -/
theorem afterLead?_toDigits (n : Nat) (c : Char) :
    afterLead? ['0', c] (Nat.toDigits 10 n) = none := by
  rcases toDigits_zero_or_head? n with ⟨-, hdigits⟩ | hhead
  · rw [hdigits]
    simp [afterLead?]
  · obtain ⟨d, digits, hdigits⟩ :=
      List.exists_cons_of_ne_nil (Nat.toDigits_ne_nil (b := 10) (n := n))
    rw [hdigits] at hhead ⊢
    have hd : '0' ≠ d := by simpa [eq_comm] using hhead
    simp [afterLead?, hd]

theorem head_toDigits_ne_sign {n : Nat} {c : Char} {digits : List Char}
    (h : Nat.toDigits 10 n = c :: digits) : c ≠ '+' ∧ c ≠ '-' := by
  have hdigit := digitValue?_of_mem_toDigits (n := n) (h ▸ List.mem_cons_self ..)
  constructor
  all_goals
    rintro rfl
    revert hdigit
    decide

theorem zeroPadded_toDigits (n : Nat) : zeroPadded (Nat.toDigits 10 n) = false := by
  rcases toDigits_zero_or_head? n with ⟨-, hdigits⟩ | hhead
  · rw [hdigits]
    decide
  · obtain ⟨d, digits, hdigits⟩ :=
      List.exists_cons_of_ne_nil (Nat.toDigits_ne_nil (b := 10) (n := n))
    obtain ⟨hplus, hminus⟩ := head_toDigits_ne_sign hdigits
    rw [hdigits] at hhead ⊢
    have hd : d ≠ '0' := by simpa using hhead
    simp [zeroPadded, hplus, hminus, hd]

/-- **Decimal numbers** are read back as far as they have sixty-four bits. -/
theorem natural?_toDigits {n : Nat} (h : n < UInt64.size) :
    natural? (Nat.toDigits 10 n) = some n := by
  have hsign : dropLead ['+'] (Nat.toDigits 10 n) = Nat.toDigits 10 n := by
    obtain ⟨d, digits, hdigits⟩ :=
      List.exists_cons_of_ne_nil (Nat.toDigits_ne_nil (b := 10) (n := n))
    have hplus : '+' ≠ d := (head_toDigits_ne_sign hdigits).1.symm
    rw [hdigits]
    simp [dropLead, afterLead?, hplus]
  have hvalue : numeralIn? 10 (Nat.toDigits 10 n) = some n :=
    numeral?_toDigits (by decide) n
  simp [natural?, hsign, afterLead?_toDigits, zeroPadded_toDigits, afterLead?, hvalue]
  omega

/-! ### Views -/

theorem itemNodes_eq_map (items : List Json) : itemNodes items = items.map nodeOf := by
  induction items with
  | nil => rfl
  | cons item items ih => rw [itemNodes, List.map_cons, ih]

theorem memberNodes_eq_map (fields : List (String × Json)) :
    memberNodes (membersOf fields) =
      fields.map fun f => (.scalar .doubleQuoted none f.1, nodeOf f.2) := by
  induction fields with
  | nil => rfl
  | cons field fields ih =>
    rw [List.map_cons, ← ih]
    rfl

/-- **YAML documents show what was written,** numbers included, which YAML has to resolve from the
text of a plain scalar. -/
theorem shows_yaml : Format.Shows Following nodeOf where
  text s := rfl
  natural n hn := by
    change Following.ofOption (natural? (String.ofList (Nat.toDigits 10 n)).toList) = pure n
    rw [String.toList_ofList, natural?_toDigits hn]
    rfl
  flag b := by
    cases b <;> rfl
  items l := by
    change (pure (itemNodes l) : Following _) = _
    rw [itemNodes_eq_map]
  fields names fs := by
    change (memberNodes (membersOf fs)).mapM
      (fun pair => return (← Following.text pair.1, pair.2)) = _
    rw [memberNodes_eq_map, Format.mapM_map_eq_pure (m := Following)
      fun f => (f.1, nodeOf f.2)]
    exact fun _ _ => rfl

end ControlPlane.Yaml
