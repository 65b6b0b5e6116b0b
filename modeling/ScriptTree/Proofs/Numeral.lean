import ScriptTree.Proofs.Digits
import ScriptTree.Proofs.Segment
import ScriptTree.Rebuild.Terminal

/-!
# The values of scanned numbers

A number that is scanned has a value, with two exceptions: a base may be
announced without any digit behind it but separators, and the suffix of large
integers may stand behind a fraction or an exponent.
-/

namespace ScriptTree

namespace WrittenNumber

variable {text : Text}

/-! ## Decimal numbers -/

theorem splitPoint_eq {whole digits power : Text}
    (isWhole : ∀ character ∈ whole, character.isDigit = true)
    (isDigits : ∀ character ∈ digits, character.isDigit = true)
    (stops : ∀ character rest, power = character :: rest →
      character.isDigit = false ∧ character ≠ '.') :
    splitPoint (whole ++ power) = (whole, [], power) ∧
      splitPoint (whole ++ '.' :: (digits ++ power)) = (whole, digits, power) := by
  have notDigit : power.head?.any Char.isDigit = false := by
    cases power with
    | nil => rfl
    | cons first rest => simpa using (stops first rest rfl).1
  obtain ⟨taken, dropped⟩ := Text.run_append isWhole notDigit
  obtain ⟨takenDigits, droppedDigits⟩ := Text.run_append isDigits notDigit
  have point : ('.' :: (digits ++ power)).head?.any Char.isDigit = false := rfl
  obtain ⟨takenWhole, droppedWhole⟩ := Text.run_append isWhole point
  constructor
  · simp only [splitPoint, taken, dropped]
    split
    · rename_i rest
      exact absurd rfl (stops '.' rest rfl).2
    · rfl
  · simp only [splitPoint, takenWhole, droppedWhole, takenDigits, droppedDigits]

/-- Digits before or after the point and a complete exponent are a decimal
number. -/
theorem decimal?_isSome {whole fraction rest : Text}
    (parts : splitPoint text = (whole, fraction, rest)) (nonempty : whole ++ fraction ≠ [])
    (isPower : rest = [] ∨ ∃ mark power, rest = mark :: power ∧ (mark = 'e' ∨ mark = 'E') ∧
      (integer? 10 power).isSome = true) : (decimal? text).isSome = true := by
  unfold decimal?
  rw [parts]
  simp only [List.isEmpty_iff, nonempty, if_false]
  rcases isPower with rfl | ⟨mark, power, rfl, isMark, read⟩
  · rfl
  · obtain ⟨value, read⟩ := Option.isSome_iff_exists.mp read
    simp [isMark, read]

theorem binary64_ok (read : (decimal? text).isSome = true) :
    ∃ value, binary64 text = .ok value := by
  obtain ⟨number, read⟩ := Option.isSome_iff_exists.mp read
  have nonempty : text ≠ [] := by
    rintro rfl
    cases read
  unfold binary64
  split
  · simp [decimal?, splitPoint] at read
  · simp [decimal?, splitPoint] at read
  · simp [unsigned?, read, nonempty]

end WrittenNumber

namespace Lexeme

/-! ## Numbers without separators -/

/-- A text without its separators. -/
def unseparated (text : Text) : Text :=
  text.filter (· != '_')

section

variable {text whole fraction exponent suffix : Text}

@[simp]
theorem unseparated_append (first second : Text) :
    unseparated (first ++ second) = unseparated first ++ unseparated second :=
  List.filter_append ..

@[simp]
theorem unseparated_cons (character : Char) (rest : Text) :
    unseparated (character :: rest) =
      if character = '_' then unseparated rest else character :: unseparated rest := by
  by_cases separates : character = '_'
  · simp [unseparated, separates]
  · simp [unseparated, separates]

@[simp]
theorem unseparated_nil : unseparated [] = [] :=
  rfl

theorem IsRun.digits (isRun : IsRun text) :
    ∀ character ∈ unseparated text, character.isDigit = true := by
  intro character isIn
  obtain ⟨isIn, notSeparator⟩ := List.mem_filter.mp isIn
  have part := isRun character isIn
  simp only [isDigitOrSeparator, Bool.or_eq_true, beq_iff_eq] at part
  exact part.resolve_right (by simpa using notSeparator)

theorem IsSuffix.unseparated (isSuffix : IsSuffix suffix) : unseparated suffix = suffix := by
  rcases isSuffix with rfl | rfl <;> rfl

theorem digit_not_separator {digit : Char} (isDigit : digit.isDigit = true) : digit ≠ '_' := by
  rintro rfl
  cases isDigit

theorem unseparated_ne_nil (digit : text.head?.any Char.isDigit = true) :
    unseparated text ≠ [] := by
  cases text with
  | nil => cases digit
  | cons first rest =>
      have isDigit : first.isDigit = true := by simpa using digit
      simp [digit_not_separator isDigit]

theorem IsFraction.digits (isFraction : IsFraction fraction) :
    fraction = [] ∨ ∃ digits, Lexeme.unseparated fraction = '.' :: digits ∧
      ∀ character ∈ digits, character.isDigit = true := by
  rcases isFraction with rfl | ⟨digits, rfl, isRun⟩
  · exact .inl rfl
  · exact .inr ⟨_, by simp, isRun.digits⟩

theorem IsExponent.digits (isExponent : IsExponent exponent) :
    exponent = [] ∨ ∃ mark sign digits, Lexeme.unseparated exponent = mark :: (sign ++ digits) ∧
      (mark = 'e' ∨ mark = 'E') ∧ (sign = [] ∨ sign = ['+'] ∨ sign = ['-']) ∧ digits ≠ [] ∧
      ∀ character ∈ digits, character.isDigit = true := by
  rcases isExponent with rfl | ⟨mark, sign, digit, digits, rfl, isMark, isSign, isDigit, isRun⟩
  · exact .inl rfl
  · refine .inr ⟨mark, sign, digit :: Lexeme.unseparated digits, ?_, isMark, isSign, by simp, ?_⟩
    · have noSeparator : mark ≠ '_' ∧ Lexeme.unseparated sign = sign := by
        constructor
        · rcases isMark with rfl | rfl <;> decide
        · rcases isSign with rfl | rfl | rfl <;> rfl
      simp [noSeparator, digit_not_separator isDigit]
    · exact List.forall_mem_cons.mpr ⟨isDigit, isRun.digits⟩

end

end Lexeme

/-! ## Values -/

namespace Literal

open Lexeme WrittenNumber

section

variable {raw body text whole fraction exponent suffix digits : Text} {base : Nat} {mark : Char}

theorem splitBase_announced (announced : announcedBase? ['0', mark] = some base)
    (nonempty : digits ≠ []) : splitBase ('0' :: mark :: digits) = (base, digits) := by
  obtain ⟨first, rest, rfl⟩ := List.exists_cons_of_ne_nil nonempty
  simp only [announcedBase?] at announced
  simp only [splitBase]
  split at announced
  · rename_i isMark
    cases announced
    rw [if_pos isMark]
  rename_i notHexadecimal
  split at announced
  · rename_i isMark
    cases announced
    rw [if_neg notHexadecimal, if_pos isMark]
  rename_i notOctal
  split at announced
  · rename_i isMark
    cases announced
    rw [if_neg notHexadecimal, if_neg notOctal, if_pos isMark]
  · cases announced

theorem splitBase_unannounced (plain : announcedBase? text = none) :
    splitBase text = (10, text) := by
  unfold splitBase
  split
  · rename_i mark first rest
    simp only [announcedBase?] at plain
    split at plain
    · cases plain
    rename_i notHexadecimal
    split at plain
    · cases plain
    rename_i notOctal
    split at plain
    · cases plain
    rename_i notBinary
    rw [if_neg notHexadecimal, if_neg notOctal, if_neg notBinary]
  · rfl

/-- Separators do not matter. -/
theorem numberValue_congr {other : Text} (same : unseparated raw = unseparated other) :
    numberValue raw = numberValue other := by
  unfold unseparated at same
  simp only [numberValue, same]

theorem bigintBody?_suffixed (body : Text) : bigintBody? (body ++ ['n']) = some body := by
  simp [bigintBody?]

theorem numberValue_bigint {value : Int} (suffixed : unseparated raw = body ++ ['n'])
    (split : splitBase body = (base, digits)) (read : integer? base digits = some value) :
    numberValue raw = .ok (.bigint value (String.ofList body)) := by
  unfold unseparated at suffixed
  simp only [numberValue, suffixed, bigintBody?_suffixed, split, read]

theorem numberValue_noBigint (suffixed : unseparated raw = body ++ ['n'])
    (split : splitBase body = (base, digits)) (read : integer? base digits = none) :
    numberValue raw = .error .invalidBigint := by
  unfold unseparated at suffixed
  simp only [numberValue, suffixed, bigintBody?_suffixed, split, read]

theorem numberValue_number (unsuffixed : 'n' ∉ unseparated raw) :
    numberValue raw = (plainNumber (unseparated raw)).map .number := by
  have found : bigintBody? (unseparated raw) = none := by
    unfold bigintBody?
    rw [if_neg fun suffixed => unsuffixed (List.mem_of_getLast? suffixed)]
  unfold unseparated at *
  simp only [numberValue, found]

theorem basedNumber_ok (nonempty : digits ≠ [])
    (all : ∀ character ∈ digits, (digitOf? base character).isSome = true) :
    ∃ value, basedNumber base digits = .ok value := by
  obtain ⟨value, read⟩ := Option.isSome_iff_exists.mp (integer?_isSome (.inl rfl) nonempty all)
  rw [List.nil_append] at read
  exact ⟨.ofInt value, by simp only [basedNumber, read]⟩

/-- Octal or not, a decimal number has a value. -/
theorem plainNumber_ok (plain : announcedBase? text = none)
    (read : (decimal? text).isSome = true) : ∃ value, plainNumber text = .ok value := by
  unfold plainNumber
  rw [splitBase_unannounced plain]
  simp only
  split
  · rename_i isOctal
    unfold isLegacyOctal at isOctal
    split at isOctal
    · exact basedNumber_ok (by simp) fun character isIn =>
        digitOf?_eight (List.all_eq_true.mp isOctal character isIn)
    · cases isOctal
  · obtain ⟨value, read⟩ := binary64_ok read
    exact ⟨value, by simp only [decimalNumber, read]⟩

/-! ### Numbers with an announced base -/

theorem numberValue_based (announced : announcedBase? ['0', mark] = some base)
    (each : ∀ character ∈ digits, isBasedDigit base character = true) (isSuffix : IsSuffix suffix)
    (isDigit : ∃ digit ∈ digits, digit ≠ '_') :
    ∃ value, numberValue ('0' :: mark :: (digits ++ suffix)) = .ok value := by
  obtain ⟨isMark, isBase⟩ := announced_mark announced
  have parts : unseparated ('0' :: mark :: (digits ++ suffix)) =
      '0' :: mark :: (unseparated digits ++ suffix) := by
    have noSeparator : mark ≠ '_' := by
      rintro rfl
      simp at isMark
    simp [noSeparator, isSuffix.unseparated]
  have nonempty : unseparated digits ≠ [] := by
    obtain ⟨digit, isIn, notSeparator⟩ := isDigit
    exact List.ne_nil_of_mem (List.mem_filter.mpr ⟨isIn, by simpa using notSeparator⟩)
  have all : ∀ character ∈ unseparated digits, (digitOf? base character).isSome = true := by
    intro character isIn
    obtain ⟨isIn, notSeparator⟩ := List.mem_filter.mp isIn
    simpa [isBasedDigit, show character ≠ '_' by simpa using notSeparator] using each character isIn
  have split := splitBase_announced announced nonempty
  rcases isSuffix with rfl | rfl
  · simp only [List.append_nil] at parts ⊢
    have unsuffixed : 'n' ∉ unseparated ('0' :: mark :: digits) := by
      rw [parts]
      simp only [List.mem_cons, not_or]
      refine ⟨by decide, ?_, fun isIn => ?_⟩
      · rintro rfl
        simp at isMark
      · have isDigit := all _ isIn
        rcases isBase with rfl | rfl | rfl <;> cases isDigit
    rw [numberValue_number unsuffixed, parts]
    obtain ⟨value, read⟩ := basedNumber_ok nonempty all
    refine ⟨.number value, ?_⟩
    unfold plainNumber
    rw [split]
    rcases isBase with rfl | rfl | rfl <;> simp [read, Except.map]
  · obtain ⟨value, read⟩ := Option.isSome_iff_exists.mp (integer?_isSome (.inl rfl) nonempty all)
    rw [List.nil_append] at read
    exact ⟨_, numberValue_bigint parts split read⟩

/-- Without a digit behind it, what announces a base is no digit itself. -/
theorem numberValue_announced (announced : announcedBase? ['0', mark] = some base)
    (separators : ∀ character ∈ digits, character = '_') (isSuffix : IsSuffix suffix) :
    numberValue ('0' :: mark :: (digits ++ suffix)) =
      .error (if suffix = [] then .invalidNumber else .invalidBigint) := by
  have empty : unseparated digits = [] := by
    simpa [unseparated, List.filter_eq_nil_iff] using separators
  have marks := (announced_mark announced).1
  simp only [List.mem_cons, List.not_mem_nil, or_false] at marks
  have noSeparator : mark ≠ '_' := by
    rintro rfl
    simp at marks
  have parts : unseparated ('0' :: mark :: (digits ++ suffix)) = '0' :: mark :: suffix := by
    simp [noSeparator, empty, isSuffix.unseparated]
  have again : unseparated ('0' :: mark :: suffix) = '0' :: mark :: suffix := by
    simp [noSeparator, isSuffix.unseparated]
  rw [numberValue_congr (parts.trans again.symm)]
  rcases isSuffix with rfl | rfl <;>
    rcases marks with rfl | rfl | rfl | rfl | rfl | rfl <;> rfl

/-! ### Numbers without an announced base -/

variable (isWhole : IsRun whole) (isFraction : IsFraction fraction)
  (isExponent : IsExponent exponent)
  (starts : whole.head?.any Char.isDigit = true ∨ whole = [] ∧
    ∃ digit digits, fraction = '.' :: digit :: digits ∧ digit.isDigit = true)

include isWhole isFraction isExponent

theorem unannounced_unseparated :
    announcedBase? (unseparated (whole ++ (fraction ++ exponent))) = none := by
  refine announcedBase?_none fun character isIn => ?_
  have isIn := (List.mem_filter.mp isIn).1
  refine (decimal_characters isWhole isFraction isExponent character isIn).imp id fun isMark => ?_
  exact List.mem_append_left ['n'] isMark

include starts

/-- A number without an announced base is a decimal number. -/
theorem decimal?_unseparated :
    (decimal? (unseparated (whole ++ (fraction ++ exponent)))).isSome = true := by
  have power : unseparated exponent = [] ∨ ∃ mark power, unseparated exponent = mark :: power ∧
      (mark = 'e' ∨ mark = 'E') ∧ (integer? 10 power).isSome = true := by
    rcases isExponent.digits with rfl | ⟨mark, sign, digits, same, isMark, isSign, nonempty, all⟩
    · exact .inl rfl
    · exact .inr ⟨mark, _, same, isMark,
        integer?_isSome isSign nonempty fun character isIn => digitOf?_ten (all character isIn)⟩
  have stops : ∀ character rest, unseparated exponent = character :: rest →
      character.isDigit = false ∧ character ≠ '.' := by
    intro character rest same
    rcases power with none | ⟨mark, power, marked, isMark, -⟩
    · rw [none] at same
      cases same
    · obtain ⟨rfl, -⟩ := List.cons.inj (marked.symm.trans same)
      rcases isMark with rfl | rfl <;> decide
  simp only [unseparated_append]
  rcases isFraction.digits with rfl | ⟨digits, same, all⟩
  · -- Without a fraction there are digits in front.
    have nonempty : unseparated whole ≠ [] := by
      rcases starts with digit | ⟨-, digit, digits, impossible, -⟩
      · exact unseparated_ne_nil digit
      · cases impossible
    have parts := (splitPoint_eq isWhole.digits (List.forall_mem_nil _) stops).1
    exact decimal?_isSome parts (by simpa using nonempty) power
  · have nonempty : unseparated whole ++ digits ≠ [] := by
      rcases starts with digit | ⟨rfl, digit, others, rfl, isDigit⟩
      · simp [unseparated_ne_nil digit]
      · have behind : digit :: unseparated others = digits := by
          simpa [digit_not_separator isDigit] using same
        simp [← behind]
    rw [same]
    exact decimal?_isSome (splitPoint_eq isWhole.digits all stops).2 nonempty power

/-- Without the suffix of large integers a decimal number has a value. -/
theorem numberValue_decimal :
    ∃ value, numberValue (whole ++ (fraction ++ exponent)) = .ok value := by
  have unsuffixed : 'n' ∉ unseparated (whole ++ (fraction ++ exponent)) := by
    intro isIn
    have isIn := (List.mem_filter.mp isIn).1
    simpa [isDigitOrSeparator] using decimal_characters isWhole isFraction isExponent 'n' isIn
  rw [numberValue_number unsuffixed]
  obtain ⟨value, read⟩ := plainNumber_ok (unannounced_unseparated isWhole isFraction isExponent)
    (decimal?_unseparated isWhole isFraction isExponent starts)
  exact ⟨.number value, by rw [read]; rfl⟩

omit starts in
/-- No large integer has a fraction or an exponent. -/
theorem numberValue_fractional (fractional : fraction ≠ [] ∨ exponent ≠ []) :
    numberValue (whole ++ (fraction ++ (exponent ++ ['n']))) = .error .invalidBigint := by
  have parts : unseparated (whole ++ (fraction ++ (exponent ++ ['n']))) =
      unseparated (whole ++ (fraction ++ exponent)) ++ ['n'] := by simp
  obtain ⟨character, isIn, noDigit, noSign⟩ :
      ∃ character ∈ unseparated (whole ++ (fraction ++ exponent)),
        digitOf? 10 character = none ∧ character ≠ '+' ∧ character ≠ '-' := by
    simp only [unseparated_append, List.mem_append]
    rcases fractional with some | some
    · obtain ⟨digits, same, -⟩ := isFraction.digits.resolve_left some
      exact ⟨'.', by simp [same], by decide⟩
    · obtain ⟨mark, sign, digits, same, isMark, -⟩ := isExponent.digits.resolve_left some
      refine ⟨mark, by simp [same], ?_⟩
      rcases isMark with rfl | rfl <;> decide
  exact numberValue_noBigint parts
    (splitBase_unannounced (unannounced_unseparated isWhole isFraction isExponent))
    (integer?_none isIn noDigit noSign)

omit isFraction isExponent starts in
/-- Digits with the suffix of large integers have a value. -/
theorem numberValue_integer (digit : whole.head?.any Char.isDigit = true) :
    ∃ value, numberValue (whole ++ ['n']) = .ok value := by
  have parts : unseparated (whole ++ ['n']) = unseparated whole ++ ['n'] := by simp
  have plain : announcedBase? (unseparated whole) = none := by
    simpa using unannounced_unseparated isWhole (.inl rfl) (.inl rfl)
  obtain ⟨value, read⟩ := Option.isSome_iff_exists.mp (integer?_isSome (.inl rfl)
    (unseparated_ne_nil digit) fun character isIn => digitOf?_ten (isWhole.digits character isIn))
  rw [List.nil_append] at read
  exact ⟨_, numberValue_bigint parts (splitBase_unannounced plain) read⟩

end

/-! ### All numbers -/

/-- A base is announced, and nothing but separators follows. -/
def OnlySeparators (text : Text) : Prop :=
  ∃ mark base separators suffix, text = '0' :: mark :: (separators ++ suffix) ∧
    announcedBase? ['0', mark] = some base ∧ (∀ character ∈ separators, character = '_') ∧
    IsSuffix suffix

/-- The suffix of large integers stands behind a fraction or an exponent. -/
def FractionalBigint (text : Text) : Prop :=
  text.getLast? = some 'n' ∧ announcedBase? text = none ∧
    ∃ character ∈ text, character = '.' ∨ character = 'e' ∨ character = 'E'

/-- The numbers of the two exceptional forms are those without a value. -/
theorem numberValue_isNumber {text : Text} (isNumber : IsNumber text) :
    (∃ value, numberValue text = .ok value) ↔ ¬OnlySeparators text ∧ ¬FractionalBigint text := by
  cases isNumber with
  | @based mark base digits suffix announced nonempty each isSuffix =>
      have whole : ¬FractionalBigint ('0' :: mark :: (digits ++ suffix)) := by
        rintro ⟨-, plain, -⟩
        have found : announcedBase? ('0' :: mark :: (digits ++ suffix)) = some base := announced
        rw [plain] at found
        cases found
      by_cases separators : ∀ character ∈ digits, character = '_'
      · rw [numberValue_announced announced separators isSuffix]
        have only : OnlySeparators ('0' :: mark :: (digits ++ suffix)) :=
          ⟨mark, base, digits, suffix, rfl, announced, separators, isSuffix⟩
        simp [only]
      · have some : ∃ digit ∈ digits, digit ≠ '_' := by simpa using separators
        refine iff_of_true (numberValue_based announced each isSuffix some) ⟨?_, whole⟩
        rintro ⟨other, base', only, tail, same, -, allSeparate, isTail⟩
        simp only [List.cons.injEq, true_and] at same
        obtain ⟨digit, isIn, notSeparator⟩ := some
        have among : digit ∈ only ++ tail := same.2 ▸ List.mem_append_left suffix isIn
        rcases List.mem_append.mp among with isIn' | isIn'
        · exact notSeparator (allSeparate digit isIn')
        · have suffixed : digit = 'n' := by
            rcases isTail with rfl | rfl
            · cases isIn'
            · simpa using isIn'
          have isDigit := each digit isIn
          rw [suffixed] at isDigit
          rcases (announced_mark announced).2 with rfl | rfl | rfl <;> cases isDigit
  | @decimal whole fraction exponent suffix isWhole isFraction isExponent isSuffix starts =>
      have plain := decimal_unannounced isWhole isFraction isExponent isSuffix
      have notOnly : ¬OnlySeparators (whole ++ (fraction ++ (exponent ++ suffix))) := by
        rintro ⟨mark, base, separators, tail, same, announced, -⟩
        rw [same] at plain
        have found : announcedBase? ('0' :: mark :: (separators ++ tail)) = some base := announced
        rw [plain] at found
        cases found
      have characters := decimal_characters isWhole isFraction isExponent
      rcases isSuffix with rfl | rfl
      · rw [List.append_nil] at *
        refine iff_of_true (numberValue_decimal isWhole isFraction isExponent starts) ⟨notOnly, ?_⟩
        rintro ⟨suffixed, -⟩
        have isIn := characters 'n' (List.mem_of_getLast? suffixed)
        simp [isDigitOrSeparator] at isIn
      · by_cases fractional : fraction ≠ [] ∨ exponent ≠ []
        · rw [numberValue_fractional isWhole isFraction isExponent fractional]
          have isFractional : FractionalBigint (whole ++ (fraction ++ (exponent ++ ['n']))) := by
            refine ⟨by simp, plain, ?_⟩
            rcases fractional with some | some
            · obtain ⟨digits, rfl, -⟩ := isFraction.resolve_left some
              exact ⟨'.', by simp, .inl rfl⟩
            · obtain ⟨mark, sign, digit, digits, rfl, isMark, -⟩ := isExponent.resolve_left some
              exact ⟨mark, by simp, .inr isMark⟩
          simp [isFractional]
        · obtain ⟨rfl, rfl⟩ : fraction = [] ∧ exponent = [] := by
            simpa only [not_or, not_not] using fractional
          have digit := starts.resolve_right (by
            rintro ⟨_, _, _, impossible, _⟩
            cases impossible)
          refine iff_of_true (numberValue_integer isWhole digit) ⟨notOnly, ?_⟩
          rintro ⟨-, -, character, isIn, isPart⟩
          rcases List.mem_append.mp isIn with isIn | isIn
          · have isRun := isWhole character isIn
            rcases isPart with rfl | rfl | rfl <;> cases isRun
          · rcases isPart with rfl | rfl | rfl <;> simp at isIn

end Literal

namespace Token

theorem scan_isNumber {dialect : Dialect} {place : Place} {patternAllowed : Bool} {token : Token}
    (run : scan dialect place patternAllowed = .ok token) (isNumber : token.kind = .number) :
    Lexeme.IsNumber token.text := by
  obtain ⟨first, rest, starts, lexed⟩ := scan_lexeme run (by simp [isEnd, isNumber])
  have read := (lexeme_isLexeme lexed).readAs
  rw [isNumber] at read
  obtain ⟨text, reaches, form⟩ := Lexeme.number_isNumber starts read.1 read.2
  rwa [(scan_scanned run).covers.text_unique reaches]

/-- A number that is scanned has a value unless it is of one of two forms. -/
theorem scan_number_value {dialect : Dialect} {place : Place} {patternAllowed : Bool}
    {token : Token} (run : scan dialect place patternAllowed = .ok token)
    (isNumber : token.kind = .number) :
    (∃ literal, Rebuild.decodeLiteral Literal.numberValue (String.ofList token.text) =
        .ok literal) ↔
      ¬Literal.OnlySeparators token.text ∧ ¬Literal.FractionalBigint token.text := by
  rw [← Literal.numberValue_isNumber (scan_isNumber run isNumber)]
  unfold Rebuild.decodeLiteral
  rw [String.toList_ofList]
  cases Literal.numberValue token.text with
  | ok value => simp
  | error flaw => simp

/-- Separators, a fraction and an exponent. -/
theorem scan_number_value_exponent :
    ∃ token, scan .script (Place.first " 1_0.5e-3;".toList) false = .ok token ∧
      token.kind = .number ∧
      ((∃ literal, Rebuild.decodeLiteral Literal.numberValue (String.ofList token.text) =
          .ok literal) ↔
        ¬Literal.OnlySeparators token.text ∧ ¬Literal.FractionalBigint token.text) := by
  have run : ∃ token, scan .script (Place.first " 1_0.5e-3;".toList) false = .ok token ∧
      token.kind = .number := ⟨_, rfl, rfl⟩
  obtain ⟨token, run, isNumber⟩ := run
  exact ⟨token, run, isNumber, scan_number_value run isNumber⟩

/-- A separator is taken for the digit that an announced base needs. -/
theorem scan_number_separator :
    ∃ token, scan .script (Place.first "0x_".toList) true = .ok token ∧ token.kind = .number ∧
      Rebuild.decodeLiteral Literal.numberValue (String.ofList token.text) =
        .error (.literal "0x_" .invalidNumber) :=
  ⟨_, rfl, rfl, rfl⟩

end Token

end ScriptTree
