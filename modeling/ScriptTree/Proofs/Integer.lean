import Mathlib.Data.Nat.Digits.Defs
import Mathlib.Tactic.Ring
import ScriptTree.Proofs.Numeral

/-!
# The values of integers

A number that consists of digits alone, with or without an announced base,
stands for what its digits are worth by their places.  As a large integer it
keeps that value; otherwise the value is rounded once.
-/

namespace ScriptTree

def digitValue (character : Char) : Nat :=
  (digitValue? character).getD 0

/-- What digits of a base are worth by their places, the last one counting
once. -/
def placeValue (base : Nat) (digits : Text) : Nat :=
  Nat.ofDigits base (digits.reverse.map digitValue)

section

variable {base : Nat} {digits : Text} {character : Char}

theorem digitOf?_value (isDigit : (digitOf? base character).isSome = true) :
    digitOf? base character = some (digitValue character) := by
  obtain ⟨digit, found⟩ := Option.isSome_iff_exists.mp isDigit
  have same : digitValue? character = some digit :=
    (Option.filter_eq_some_iff.mp found).1
  rw [found, digitValue, same]
  rfl

theorem placeValue_cons (base : Nat) (first : Char) (rest : Text) :
    placeValue base (first :: rest) =
      digitValue first * base ^ rest.length + placeValue base rest := by
  simp only [placeValue, List.reverse_cons, List.map_append, Nat.ofDigits_append, List.map_cons,
    List.map_nil, Nat.ofDigits_singleton, List.length_map, List.length_reverse]
  ring

/-- A zero in front is worth nothing. -/
theorem placeValue_zero (base : Nat) (rest : Text) :
    placeValue base ('0' :: rest) = placeValue base rest := by
  have nothing : digitValue '0' = 0 := rfl
  rw [placeValue_cons, nothing, Nat.zero_mul, Nat.zero_add]

namespace WrittenNumber

/-- Digits behind others add what they are worth to the earlier value, which
moves up by as many places. -/
theorem positional?_eq (all : ∀ character ∈ digits, (digitOf? base character).isSome = true)
    (value : Nat) :
    positional? base value digits =
      some (value * base ^ digits.length + placeValue base digits) := by
  induction digits generalizing value with
  | nil => simp [positional?, placeValue]
  | cons first rest ih =>
      obtain ⟨isDigit, others⟩ := List.forall_mem_cons.mp all
      rw [positional?, digitOf?_value isDigit, Option.bind_some, ih others, placeValue_cons,
        List.length_cons]
      congr 1
      ring

theorem natural?_eq_placeValue (nonempty : digits ≠ [])
    (all : ∀ character ∈ digits, (digitOf? base character).isSome = true) :
    natural? base digits = some (placeValue base digits) := by
  rw [natural?_eq nonempty, positional?_eq all, Nat.zero_mul, Nat.zero_add]

theorem integer?_eq_placeValue (nonempty : digits ≠ [])
    (all : ∀ character ∈ digits, (digitOf? base character).isSome = true) :
    integer? base digits = some (placeValue base digits : Int) := by
  have read := natural?_eq_placeValue nonempty all
  unfold integer?
  split
  · -- No digit is a sign.
    exact absurd (all '-' (by simp)) (by simp [digitOf?, digitValue?])
  · exact absurd (all '+' (by simp)) (by simp [digitOf?, digitValue?])
  · rw [read]
    rfl

/-- Digits without a fraction or an exponent are rounded like an integer. -/
theorem ofDecimal_integer (digits width : Nat) :
    Binary64.ofDecimal false digits width 0 = .ofInt digits := by
  by_cases zero : digits = 0
  · subst zero
    rfl
  · have notNegative : ¬(digits : Int) < 0 := by omega
    simp [Binary64.ofDecimal, Binary64.ofInt, zero, notNegative]

theorem binary64_digits (nonempty : digits ≠ [])
    (all : ∀ character ∈ digits, character.isDigit = true) :
    binary64 digits = .ok (.ofInt (placeValue 10 digits)) := by
  have isTen : ∀ character ∈ digits, (digitOf? 10 character).isSome = true :=
    fun character isIn => digitOf?_ten (all character isIn)
  have stops : ∀ character rest, ([] : Text) = character :: rest →
      character.isDigit = false ∧ character ≠ '.' := nofun
  have parts := (splitPoint_eq all (List.forall_mem_nil _) stops).1
  rw [List.append_nil] at parts
  have whole : decimal? digits = some ⟨placeValue 10 digits, digits.length, 0⟩ := by
    simp [decimal?, parts, nonempty, run, positional?_eq isTen]
  unfold binary64
  split
  · exact absurd (all '-' (by simp)) (by decide)
  · exact absurd (all '+' (by simp)) (by decide)
  · simp [unsigned?, whole, nonempty, ofDecimal_integer]

end WrittenNumber

end

/-- Separators are gone once they have been dropped. -/
theorem Lexeme.unseparated_idem (text : Text) :
    unseparated (unseparated text) = unseparated text := by
  simp [unseparated]

/-! ## Integers with or without an announced base -/

namespace Literal

open Lexeme WrittenNumber

/-- What stands in front of the digits of a base. -/
inductive Opening : Nat → Text → Prop where
  | decimal : Opening 10 []
  | hexadecimal {mark : Char} (isMark : mark = 'x' ∨ mark = 'X') : Opening 16 ['0', mark]
  | octal {mark : Char} (isMark : mark = 'o' ∨ mark = 'O') : Opening 8 ['0', mark]
  | binary {mark : Char} (isMark : mark = 'b' ∨ mark = 'B') : Opening 2 ['0', mark]

/-- Digits and separators behind the opening of their base, with a digit among
them if the base is announced. -/
structure IsInteger (base : Nat) (opening digits : Text) : Prop where
  opens : Opening base opening
  each : ∀ character ∈ digits, isBasedDigit base character = true
  some : opening ≠ [] → ∃ digit ∈ digits, digit ≠ '_'

/-- The base in which digits without separators count when they are no large
integer. -/
def plainBase (base : Nat) (opening digits : Text) : Nat :=
  if opening.isEmpty && (2 ≤ digits.length && digits.head? == some '0' &&
      digits.all fun character => digitValue character < 8) then
    8
  else
    base

variable {base : Nat} {opening digits : Text}

theorem Opening.announced (opens : Opening base opening) :
    (base = 10 ∧ opening = []) ∨
      ∃ mark, opening = ['0', mark] ∧ announcedBase? ['0', mark] = some base := by
  cases opens with
  | decimal => exact .inl ⟨rfl, rfl⟩
  | hexadecimal isMark | octal isMark | binary isMark =>
      refine .inr ⟨_, rfl, ?_⟩
      rcases isMark with rfl | rfl <;> rfl

theorem Opening.unseparated (opens : Opening base opening) :
    Lexeme.unseparated opening = opening := by
  cases opens with
  | decimal => rfl
  | hexadecimal isMark | octal isMark | binary isMark => rcases isMark with rfl | rfl <;> rfl

theorem isOctalDigit_iff {character : Char} (isDigit : character.isDigit = true) :
    isOctalDigit character = true ↔ digitValue character < 8 := by
  have both : ('0' ≤ character && character ≤ '9') = true := isDigit
  have lower : '0' ≤ character := by simpa using (Bool.and_eq_true_iff.mp both).1
  have value : digitValue character = character.toNat - 48 := by
    simp only [digitValue, digitValue?, if_pos both]
    rfl
  simp only [isOctalDigit, value, lower, decide_true, Bool.true_and, decide_eq_true_eq]
  rw [Char.le_def, UInt32.le_iff_toNat_le] at lower ⊢
  change 48 ≤ character.toNat at lower
  change character.toNat ≤ 55 ↔ _
  omega

theorem isLegacyOctal_iff {digits : Text} (all : ∀ character ∈ digits, character.isDigit = true) :
    isLegacyOctal digits = true ↔
      2 ≤ digits.length ∧ digits.head? = some '0' ∧
        ∀ character ∈ digits, digitValue character < 8 := by
  unfold isLegacyOctal
  split
  · rename_i second rest
    have others : ∀ character ∈ second :: rest, character.isDigit = true :=
      fun character isIn => all character (List.mem_cons_of_mem _ isIn)
    rw [List.all_eq_true]
    constructor
    · intro octal
      refine ⟨by simp, rfl, List.forall_mem_cons.mpr ⟨by decide, fun character isIn => ?_⟩⟩
      exact (isOctalDigit_iff (others character isIn)).mp (octal character isIn)
    · rintro ⟨-, -, small⟩ character isIn
      exact (isOctalDigit_iff (others character isIn)).mpr
        (small character (List.mem_cons_of_mem _ isIn))
  · rename_i other
    refine iff_of_false nofun ?_
    rintro ⟨long, starts, -⟩
    match digits, long, starts with
    | first :: second :: rest, _, starts =>
        obtain rfl : first = '0' := by simpa using starts
        exact other second rest rfl

namespace IsInteger

variable (isInteger : IsInteger base opening digits)

include isInteger

theorem all : ∀ character ∈ unseparated digits, (digitOf? base character).isSome = true := by
  intro character isIn
  obtain ⟨isIn, notSeparator⟩ := List.mem_filter.mp isIn
  simpa [isBasedDigit, show character ≠ '_' by simpa using notSeparator] using
    isInteger.each character isIn

theorem unsuffixed : 'n' ∉ opening ++ unseparated digits := by
  intro isIn
  rcases List.mem_append.mp isIn with inOpening | isDigit
  · cases isInteger.opens with
    | decimal => cases inOpening
    | hexadecimal isMark | octal isMark | binary isMark =>
        rcases isMark with rfl | rfl <;> revert inOpening <;> decide
  · have isDigit := isInteger.all 'n' isDigit
    cases isInteger.opens <;> cases isDigit

theorem unseparated_append (suffix : Text) :
    unseparated (opening ++ (digits ++ suffix)) =
      opening ++ unseparated digits ++ unseparated suffix := by
  simp [isInteger.opens.unseparated]

theorem splitBase_eq (nonempty : unseparated digits ≠ []) :
    splitBase (opening ++ unseparated digits) = (base, unseparated digits) := by
  rcases isInteger.opens.announced with ⟨rfl, rfl⟩ | ⟨mark, rfl, announced⟩
  · refine splitBase_unannounced (announcedBase?_none fun character isIn => .inl ?_)
    obtain ⟨digit, found⟩ := Option.isSome_iff_exists.mp (isInteger.all character isIn)
    simp [isDigitOrSeparator, isDigit_of_digitOf? (Nat.le_refl 10) found]
  · exact splitBase_announced announced nonempty

/-- With the suffix of large integers, digits are worth what they are by their
places. -/
theorem numberValue_large (nonempty : unseparated digits ≠ []) {raw : Text}
    (written : unseparated raw = opening ++ unseparated digits ++ ['n']) :
    numberValue raw = .ok (.bigint (placeValue base (unseparated digits))
      (String.ofList (opening ++ unseparated digits))) :=
  numberValue_bigint written (isInteger.splitBase_eq nonempty)
    (integer?_eq_placeValue nonempty isInteger.all)

/-- Behind an announced base, digits without a suffix are rounded like an
integer of that base. -/
theorem plainNumber_based (nonempty : unseparated digits ≠ []) (opened : opening ≠ []) :
    plainNumber (opening ++ unseparated digits) =
      .ok (.ofInt (placeValue base (unseparated digits))) := by
  have notTen : base ≠ 10 := by
    rintro rfl
    cases isInteger.opens
    exact opened rfl
  unfold plainNumber
  rw [isInteger.splitBase_eq nonempty]
  split
  · rename_i same
    exact absurd (Prod.mk.inj same).1 notTen
  · rename_i same
    obtain ⟨rfl, rfl⟩ := Prod.mk.inj same
    simp [basedNumber, integer?_eq_placeValue nonempty isInteger.all]

end IsInteger

/-- Decimal digits without a suffix are rounded like an integer, which is
octal for no other reason than a leading zero. -/
theorem plainNumber_decimal {digits : Text} (nonempty : digits ≠ [])
    (all : ∀ character ∈ digits, character.isDigit = true)
    (split : splitBase digits = (10, digits)) :
    plainNumber digits = .ok (.ofInt (placeValue (plainBase 10 [] digits) digits)) := by
  unfold plainNumber plainBase
  rw [split]
  by_cases octal : isLegacyOctal digits = true
  · have form := (isLegacyOctal_iff all).mp octal
    obtain ⟨rest, rfl⟩ := List.head?_eq_some_iff.mp form.2.1
    have behind : rest ≠ [] := by
      rintro rfl
      exact absurd form.1 (by decide)
    have eights : ∀ character ∈ rest, (digitOf? 8 character).isSome = true := by
      intro character isIn
      have isIn : character ∈ '0' :: rest := List.mem_cons_of_mem _ isIn
      exact digitOf?_eight ((isOctalDigit_iff (all character isIn)).mpr (form.2.2 character isIn))
    rw [if_pos (by simpa [and_assoc] using form), placeValue_zero]
    simp [octal, basedNumber, integer?_eq_placeValue behind eights]
  · have notForm := mt (isLegacyOctal_iff all).mpr octal
    rw [if_neg (by simpa [and_assoc] using notForm)]
    simp [octal, decimalNumber, binary64_digits nonempty all]

theorem IsInteger.numberValue_plain (isInteger : IsInteger base opening digits)
    (nonempty : unseparated digits ≠ []) {raw : Text}
    (written : unseparated raw = opening ++ unseparated digits) :
    numberValue raw = .ok (.number (.ofInt
      (placeValue (plainBase base opening (unseparated digits)) (unseparated digits)))) := by
  rw [numberValue_number (written ▸ isInteger.unsuffixed), written]
  rcases isInteger.opens.announced with ⟨rfl, rfl⟩ | ⟨mark, rfl, -⟩
  · have all : ∀ character ∈ unseparated digits, character.isDigit = true := by
      intro character isIn
      obtain ⟨digit, found⟩ := Option.isSome_iff_exists.mp (isInteger.all character isIn)
      exact isDigit_of_digitOf? (Nat.le_refl 10) found
    have split := isInteger.splitBase_eq nonempty
    rw [List.nil_append] at split ⊢
    rw [plainNumber_decimal nonempty all split]
    rfl
  · rw [isInteger.plainNumber_based nonempty (by simp), plainBase, if_neg (by simp)]
    rfl

end Literal

namespace Token

open Literal Lexeme

/-- A scanned integer has a digit, for a number starts with a digit or a
point. -/
theorem scan_integer_digits {base : Nat} {opening digits suffix text : Text}
    (isInteger : IsInteger base opening digits) (isNumber : IsNumber text)
    (isSuffix : IsSuffix suffix) (written : text = opening ++ (digits ++ suffix)) :
    unseparated digits ≠ [] := by
  intro empty
  have separators : ∀ character ∈ digits, character = '_' := by
    simpa [unseparated, List.filter_eq_nil_iff] using empty
  have unopened : opening = [] := by
    by_contra opened
    obtain ⟨digit, isIn, notSeparator⟩ := isInteger.some opened
    exact notSeparator (separators digit isIn)
  obtain ⟨first, rest, rfl⟩ := List.exists_cons_of_ne_nil isNumber.ne_nil
  have isFirst : first ∈ digits ++ suffix := by
    rw [unopened, List.nil_append] at written
    rw [← written]
    exact List.mem_cons_self
  have starts := isNumber.startsNumber 0
  rcases List.mem_append.mp isFirst with isIn | isIn
  · rw [separators first isIn] at starts
    cases starts
  · rcases isSuffix with rfl | rfl
    · cases isIn
    · rw [List.mem_singleton.mp isIn] at starts
      cases starts

/-- A scanned integer is worth what its digits are by their places. -/
theorem scan_integer_value {dialect : Dialect} {place : Place} {patternAllowed : Bool}
    {token : Token} (run : scan dialect place patternAllowed = .ok token)
    (isNumber : token.kind = .number) {base : Nat} {opening digits : Text}
    (isInteger : IsInteger base opening digits) :
    (token.text = opening ++ (digits ++ ['n']) →
      let value : LiteralValue := .bigint (placeValue base (unseparated digits))
        (String.ofList (unseparated (opening ++ digits)))
      let again := String.ofList (unseparated (opening ++ digits)) ++ "n"
      Rebuild.decodeLiteral numberValue (String.ofList token.text) =
          .ok ⟨value, String.ofList token.text⟩ ∧
        Rebuild.decodeLiteral numberValue again = .ok ⟨value, again⟩) ∧
    (token.text = opening ++ digits →
      Rebuild.decodeLiteral numberValue (String.ofList token.text) =
        .ok ⟨.number (.ofInt (placeValue (plainBase base opening (unseparated digits))
          (unseparated digits))), String.ofList token.text⟩) := by
  have isNumber := scan_isNumber run isNumber
  have body : unseparated (opening ++ digits) = opening ++ unseparated digits := by
    simpa using isInteger.unseparated_append []
  constructor
  · intro written value again
    have nonempty := scan_integer_digits isInteger isNumber (.inr rfl) written
    have bare : unseparated token.text = opening ++ unseparated digits ++ ['n'] := by
      rw [written]
      exact isInteger.unseparated_append ['n']
    have bareAgain : unseparated (unseparated (opening ++ digits) ++ ['n']) =
        opening ++ unseparated digits ++ ['n'] := by
      rw [Lexeme.unseparated_append, unseparated_idem, body]
      rfl
    have decoded := isInteger.numberValue_large nonempty bare
    have decodedAgain := isInteger.numberValue_large nonempty bareAgain
    rw [← body] at decoded decodedAgain
    have spelled : again.toList = unseparated (opening ++ digits) ++ ['n'] := by
      simp [again]
    constructor
    · simp only [Rebuild.decodeLiteral, String.toList_ofList, decoded, value]
    · simp only [Rebuild.decodeLiteral, spelled, decodedAgain, value]
  · intro written
    have nonempty := scan_integer_digits isInteger isNumber (.inl rfl)
      (by rw [written, List.append_nil])
    have bare : unseparated token.text = opening ++ unseparated digits := by
      rw [written, body]
    have decoded := isInteger.numberValue_plain nonempty bare
    simp only [Rebuild.decodeLiteral, String.toList_ofList, decoded]

/-- A large integer whose digits look like other marks of numbers, and digits
that are octal for nothing but a leading zero. -/
theorem scan_integer_value_marks :
    (∃ token, scan .script (Place.first " 0x_b_En;".toList) false = .ok token ∧
      token.kind = .number ∧ IsInteger 16 "0x".toList "_b_E".toList ∧
      token.text = "0x".toList ++ ("_b_E".toList ++ ['n']) ∧
      Rebuild.decodeLiteral numberValue (String.ofList token.text) =
        .ok ⟨.bigint 190 "0xbE", String.ofList token.text⟩) ∧
    ∃ token, scan .script (Place.first "0_17 ".toList) true = .ok token ∧
      token.kind = .number ∧ IsInteger 10 [] "0_17".toList ∧
      token.text = [] ++ "0_17".toList ∧
      Rebuild.decodeLiteral numberValue (String.ofList token.text) =
        .ok ⟨.number (.ofInt 15), String.ofList token.text⟩ := by
  constructor
  · have isInteger : IsInteger 16 "0x".toList "_b_E".toList :=
      ⟨.hexadecimal (.inl rfl), List.all_eq_true.mp rfl, fun _ => ⟨'b', by decide, by decide⟩⟩
    have run : ∃ token, scan .script (Place.first " 0x_b_En;".toList) false = .ok token ∧
        token.kind = .number ∧ token.text = "0x".toList ++ ("_b_E".toList ++ ['n']) :=
      ⟨_, rfl, rfl, rfl⟩
    obtain ⟨token, run, isNumber, written⟩ := run
    have decoded := ((scan_integer_value run isNumber isInteger).1 written).1
    exact ⟨token, run, isNumber, isInteger, written, decoded⟩
  · have isInteger : IsInteger 10 [] "0_17".toList :=
      ⟨.decimal, List.all_eq_true.mp rfl, nofun⟩
    have run : ∃ token, scan .script (Place.first "0_17 ".toList) true = .ok token ∧
        token.kind = .number ∧ token.text = [] ++ "0_17".toList :=
      ⟨_, rfl, rfl, rfl⟩
    obtain ⟨token, run, isNumber, written⟩ := run
    have decoded := (scan_integer_value run isNumber isInteger).2 written
    exact ⟨token, run, isNumber, isInteger, written, decoded⟩

end Token

end ScriptTree
