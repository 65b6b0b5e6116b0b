import Mathlib.Algebra.Group.Nat.Defs
import ScriptTree.Literal.Number

/-!
# The values of digits

A sequence of characters has a value in some base if all of them are digits of
that base, and the value is bounded by the number of digits.
-/

namespace ScriptTree

/-- A decimal digit is a digit of every base that it is below. -/
theorem digitOf?_below {base : Nat} {character : Char} (isDigit : character.isDigit = true)
    (below : character.toNat < 48 + base) : (digitOf? base character).isSome = true := by
  change ('0' ≤ character && character ≤ '9') = true at isDigit
  have lower : '0' ≤ character := by simpa using (Bool.and_eq_true_iff.mp isDigit).1
  rw [Char.le_def, UInt32.le_iff_toNat_le] at lower
  have least : 48 ≤ character.toNat := lower
  unfold digitOf? digitValue?
  rw [if_pos isDigit]
  simp [Option.filter_some]
  omega

theorem digitOf?_lt {base digit : Nat} {character : Char}
    (found : digitOf? base character = some digit) : digit < base := by
  unfold digitOf? at found
  simpa using (Option.filter_eq_some_iff.mp found).2

/-- The digits of bases up to ten are decimal digits. -/
theorem isDigit_of_digitOf? {base digit : Nat} {character : Char} (small : base ≤ 10)
    (found : digitOf? base character = some digit) : character.isDigit = true := by
  have below := digitOf?_lt found
  unfold digitOf? digitValue? at found
  change ('0' ≤ character && character ≤ '9') = true
  split at found
  · assumption
  · -- A letter stands for more than nine.
    split at found
    · have same := (Option.filter_eq_some_iff.mp found).1
      simp only [Option.some.injEq] at same
      omega
    split at found
    · have same := (Option.filter_eq_some_iff.mp found).1
      simp only [Option.some.injEq] at same
      omega
    · cases found

theorem digitOf?_ten {character : Char} (isDigit : character.isDigit = true) :
    (digitOf? 10 character).isSome = true := by
  have both : ('0' ≤ character && character ≤ '9') = true := isDigit
  have upper : character ≤ '9' := by simpa using (Bool.and_eq_true_iff.mp both).2
  rw [Char.le_def, UInt32.le_iff_toNat_le] at upper
  have most : character.toNat ≤ 57 := upper
  exact digitOf?_below isDigit (by omega)

theorem digitOf?_eight {character : Char} (isOctal : Literal.isOctalDigit character = true) :
    (digitOf? 8 character).isSome = true := by
  obtain ⟨lower, upper⟩ : '0' ≤ character ∧ character ≤ '7' := by
    simpa [Literal.isOctalDigit] using isOctal
  have isDigit : character.isDigit = true := by
    change ('0' ≤ character && character ≤ '9') = true
    simpa using ⟨lower, Char.le_trans upper (by decide)⟩
  rw [Char.le_def, UInt32.le_iff_toNat_le] at upper
  have most : character.toNat ≤ 55 := upper
  exact digitOf?_below isDigit (by omega)

namespace WrittenNumber

variable {base : Nat} {digits text : Text} {character : Char}

theorem positional?_isSome (all : ∀ character ∈ digits, (digitOf? base character).isSome = true)
    (value : Nat) : (positional? base value digits).isSome = true := by
  induction digits generalizing value with
  | nil => rfl
  | cons first rest ih =>
      obtain ⟨isDigit, others⟩ := List.forall_mem_cons.mp all
      obtain ⟨digit, found⟩ := Option.isSome_iff_exists.mp isDigit
      rw [positional?, found, Option.bind_some]
      exact ih others _

theorem positional?_none (isIn : character ∈ text) (noDigit : digitOf? base character = none)
    (value : Nat) : positional? base value text = none := by
  induction text generalizing value with
  | nil => cases isIn
  | cons first rest ih =>
      rw [positional?]
      rcases List.mem_cons.mp isIn with rfl | later
      · rw [noDigit, Option.bind_none]
      · cases digitOf? base first with
        | none => rfl
        | some digit => exact ih later _

theorem natural?_isSome (nonempty : digits ≠ [])
    (all : ∀ character ∈ digits, (digitOf? base character).isSome = true) :
    (natural? base digits).isSome = true := by
  rw [natural?, if_neg (by simpa using nonempty)]
  exact positional?_isSome all 0

theorem natural?_none (isIn : character ∈ text) (noDigit : digitOf? base character = none) :
    natural? base text = none := by
  unfold natural?
  split
  · rfl
  · exact positional?_none isIn noDigit 0

theorem natural?_eq (nonempty : digits ≠ []) :
    natural? base digits = positional? base 0 digits := by
  rw [natural?, if_neg (by simpa using nonempty)]

/-- All characters of a text that has a value are digits. -/
theorem digits_of_positional? {value number : Nat}
    (read : positional? base value digits = some number) (isIn : character ∈ digits) :
    ∃ digit, digitOf? base character = some digit := by
  cases noDigit : digitOf? base character with
  | some digit => exact ⟨digit, rfl⟩
  | none =>
      rw [positional?_none isIn noDigit] at read
      cases read

/-- The value of digits behind others lies in an interval that their number
determines. -/
theorem positional?_bounds {value number : Nat}
    (read : positional? base value digits = some number) :
    value * base ^ digits.length ≤ number ∧ number < (value + 1) * base ^ digits.length := by
  induction digits generalizing value with
  | nil =>
      rw [positional?] at read
      cases read
      simp
  | cons first rest ih =>
      rw [positional?] at read
      obtain ⟨digit, found, read⟩ := Option.bind_eq_some_iff.mp read
      have below := digitOf?_lt found
      obtain ⟨lower, upper⟩ := ih read
      rw [List.length_cons, Nat.pow_succ, Nat.mul_comm _ base, ← Nat.mul_assoc, ← Nat.mul_assoc]
      constructor
      · exact Nat.le_trans (Nat.mul_le_mul_right _ (by omega)) lower
      · refine Nat.lt_of_lt_of_le upper (Nat.mul_le_mul_right _ ?_)
        rw [Nat.add_mul]
        omega

/-- At most one sign stands before digits. -/
theorem integer?_isSome {sign : Text} (isSign : sign = [] ∨ sign = ['+'] ∨ sign = ['-'])
    (nonempty : digits ≠ [])
    (all : ∀ character ∈ digits, (digitOf? base character).isSome = true) :
    (integer? base (sign ++ digits)).isSome = true := by
  obtain ⟨value, read⟩ := Option.isSome_iff_exists.mp (natural?_isSome nonempty all)
  rcases isSign with rfl | rfl | rfl
  · rw [List.nil_append]
    unfold integer?
    split
    · exact absurd (all '-' (by simp)) (by simp [digitOf?, digitValue?])
    · exact absurd (all '+' (by simp)) (by simp [digitOf?, digitValue?])
    · simp [read]
  all_goals simp [integer?, read]

theorem integer?_none (isIn : character ∈ text) (noDigit : digitOf? base character = none)
    (noSign : character ≠ '+' ∧ character ≠ '-') : integer? base text = none := by
  unfold integer?
  split
  · rename_i digits
    have later := (List.mem_cons.mp isIn).resolve_left noSign.2
    simp [natural?_none later noDigit]
  · rename_i digits
    have later := (List.mem_cons.mp isIn).resolve_left noSign.1
    simp [natural?_none later noDigit]
  · simp [natural?_none isIn noDigit]

end WrittenNumber

end ScriptTree
