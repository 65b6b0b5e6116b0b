import Mathlib.Data.List.TakeWhile
import ScriptTree.Proofs.Text
import ScriptTree.Token.Scan

/-!
# The form of lexemes

Numbers, quoted strings and patterns that are read have a certain form, and
every text of that form is read as a whole.
-/

namespace ScriptTree

namespace Place

/-- A run is skipped up to the first character that does not belong to it. -/
theorem skipWhile_append (test : Char → Bool) {run more : Text}
    (all : ∀ character ∈ run, test character = true) (stops : more.head?.any test = false)
    (offset : Nat) :
    (Place.mk offset (run ++ more)).skipWhile test = ⟨offset + Text.size run, more⟩ := by
  obtain ⟨taken, dropped⟩ := Text.run_append all stops
  simp only [skipWhile, taken, dropped]

theorem skipWhile_all (test : Char → Bool) {run : Text}
    (all : ∀ character ∈ run, test character = true) (offset : Nat) :
    (Place.mk offset run).skipWhile test = ⟨offset + Text.size run, []⟩ := by
  have nothing : ([] : Text).head?.any test = false := rfl
  have skips := skipWhile_append test all nothing offset
  rwa [List.append_nil] at skips

end Place

namespace Lexeme

/-! ## Numbers -/

/-- Decimal digits and separators. -/
def IsRun (text : Text) : Prop :=
  ∀ character ∈ text, isDigitOrSeparator character = true

/-- A decimal point and the digits behind it, or nothing. -/
def IsFraction (text : Text) : Prop :=
  text = [] ∨ ∃ digits, text = '.' :: digits ∧ IsRun digits

/-- A mark, an optional sign and digits, or nothing. -/
def IsExponent (text : Text) : Prop :=
  text = [] ∨ ∃ mark sign digit digits, text = mark :: (sign ++ digit :: digits) ∧
    (mark = 'e' ∨ mark = 'E') ∧ (sign = [] ∨ sign = ['+'] ∨ sign = ['-']) ∧
    digit.isDigit = true ∧ IsRun digits

/-- The suffix of large integers, or nothing. -/
def IsSuffix (text : Text) : Prop :=
  text = [] ∨ text = ['n']

def isBasedDigit (base : Nat) (character : Char) : Bool :=
  (digitOf? base character).isSome || character == '_'

/-- The form of numbers. -/
inductive IsNumber : Text → Prop where
  | based {mark : Char} {base : Nat} {digits suffix : Text}
      (announced : announcedBase? ['0', mark] = some base) (nonempty : digits ≠ [])
      (each : ∀ character ∈ digits, isBasedDigit base character = true)
      (isSuffix : IsSuffix suffix) : IsNumber ('0' :: mark :: (digits ++ suffix))
  | decimal {whole fraction exponent suffix : Text} (isWhole : IsRun whole)
      (isFraction : IsFraction fraction) (isExponent : IsExponent exponent)
      (isSuffix : IsSuffix suffix)
      (starts : whole.head?.any Char.isDigit = true ∨ whole = [] ∧
        ∃ digit digits, fraction = '.' :: digit :: digits ∧ digit.isDigit = true) :
      IsNumber (whole ++ (fraction ++ (exponent ++ suffix)))

theorem IsRun.takeWhile (text : Text) : IsRun (text.takeWhile isDigitOrSeparator) :=
  fun _ isIn => List.mem_takeWhile_imp isIn

theorem announcedBase?_cases {text : Text} {base : Nat}
    (announced : announcedBase? text = some base) :
    ∃ mark rest, text = '0' :: mark :: rest ∧ announcedBase? ['0', mark] = some base := by
  unfold announcedBase? at announced
  split at announced
  · exact ⟨_, _, rfl, announced⟩
  · cases announced

theorem announced_mark {mark : Char} {base : Nat}
    (announced : announcedBase? ['0', mark] = some base) :
    (mark ∈ ['x', 'X', 'o', 'O', 'b', 'B']) ∧ (base = 16 ∨ base = 8 ∨ base = 2) := by
  simp only [announcedBase?] at announced
  split at announced
  · rename_i isMark
    cases announced
    rcases isMark with rfl | rfl <;> decide
  split at announced
  · rename_i isMark
    cases announced
    rcases isMark with rfl | rfl <;> decide
  split at announced
  · rename_i isMark
    cases announced
    rcases isMark with rfl | rfl <;> decide
  · cases announced

/-! ### What is read -/

variable {start stop place : Place}

theorem fraction_point {rest : Text} (starts : place.rest = '.' :: rest) :
    place.Reaches ('.' :: rest.takeWhile isDigitOrSeparator) (fraction place) := by
  unfold fraction
  rw [if_pos (by simp [Place.current, starts])]
  have behind : place.step.rest = rest := by simp [Place.step, starts]
  have reaches := (Place.reaches_step starts).trans
    (Place.reaches_skipWhile place.step isDigitOrSeparator)
  rwa [behind] at reaches

theorem fraction_isFraction (place : Place) :
    ∃ text, IsFraction text ∧ place.Reaches text (fraction place) := by
  by_cases point : place.current = some '.'
  · obtain ⟨rest, starts⟩ := List.head?_eq_some_iff.mp point
    exact ⟨_, .inr ⟨_, rfl, .takeWhile rest⟩, fraction_point starts⟩
  · unfold fraction
    rw [if_neg point]
    exact ⟨[], .inl rfl, .refl _⟩

/-- An exponent of which the mark, the sign and the first digit have been
seen. -/
theorem exponent_digits (before : Text) {digits : Text} {digit : Char}
    (rest : place.rest = before ++ digit :: digits) (isDigit : digit.isDigit = true) :
    place.Reaches (before ++ digit :: digits.takeWhile isDigitOrSeparator)
      ((place.advance before.length).skipWhile isDigitOrSeparator) := by
  have reaches := (Place.reaches_advance place before.length).trans
    (Place.reaches_skipWhile _ isDigitOrSeparator)
  have part : isDigitOrSeparator digit = true := by simp [isDigitOrSeparator, isDigit]
  have behind : (place.advance before.length).rest = digit :: digits := by
    simp [Place.advance, rest]
  have taken : place.rest.take before.length = before := by simp [rest]
  rwa [behind, taken, List.takeWhile_cons_of_pos part] at reaches

theorem exponent_isExponent (place : Place) :
    ∃ text, IsExponent text ∧ place.Reaches text (exponent place) := by
  have nothing : ∃ text, IsExponent text ∧ place.Reaches text place := ⟨[], .inl rfl, .refl _⟩
  unfold exponent
  split
  · rename_i isMark
    obtain ⟨mark, rest, starts, isMark⟩ :
        ∃ mark rest, place.rest = mark :: rest ∧ (mark = 'e' ∨ mark = 'E') := by
      rcases isMark with same | same <;>
        obtain ⟨rest, starts⟩ := List.head?_eq_some_iff.mp same
      · exact ⟨_, rest, starts, .inl rfl⟩
      · exact ⟨_, rest, starts, .inr rfl⟩
    simp only
    split
    · rename_i signed
      split
      · rename_i digitFollows
        obtain ⟨sign, others, rfl, isSign⟩ :
            ∃ sign others, rest = sign :: others ∧ (sign = '+' ∨ sign = '-') := by
          cases rest with
          | nil => simp [Place.ahead, starts] at signed
          | cons sign others =>
              exact ⟨sign, others, rfl, by simpa [Place.ahead, starts] using signed⟩
        obtain ⟨digit, digits, rfl, isDigit⟩ :
            ∃ digit digits, others = digit :: digits ∧ digit.isDigit = true := by
          cases others with
          | nil => simp [Place.ahead, starts] at digitFollows
          | cons digit digits =>
              exact ⟨digit, digits, rfl, by simpa [Place.ahead, starts] using digitFollows⟩
        refine ⟨_, .inr ⟨mark, [sign], digit, _, rfl, isMark, ?_, isDigit, .takeWhile digits⟩,
          exponent_digits [mark, sign] starts isDigit⟩
        rcases isSign with rfl | rfl
        · exact .inr (.inl rfl)
        · exact .inr (.inr rfl)
      · exact nothing
    · split
      · rename_i digitFollows
        obtain ⟨digit, digits, rfl, isDigit⟩ :
            ∃ digit digits, rest = digit :: digits ∧ digit.isDigit = true := by
          cases rest with
          | nil => simp [Place.ahead, starts] at digitFollows
          | cons digit digits =>
              exact ⟨digit, digits, rfl, by simpa [Place.ahead, starts] using digitFollows⟩
        exact ⟨_, .inr ⟨mark, [], digit, _, rfl, isMark, .inl rfl, isDigit, .takeWhile digits⟩,
          exponent_digits [mark] starts isDigit⟩
      · exact nothing
  · exact nothing

theorem suffix_isSuffix (place : Place) :
    ∃ text, IsSuffix text ∧
      place.Reaches text (if place.current = some 'n' then place.step else place) := by
  split
  · rename_i suffixed
    obtain ⟨rest, starts⟩ := List.head?_eq_some_iff.mp suffixed
    exact ⟨_, .inr rfl, Place.reaches_step starts⟩
  · exact ⟨[], .inl rfl, .refl _⟩

theorem basedDigits_isBased {base : Nat} (announced : announcedBase? start.rest = some base)
    (run : basedDigits base start = .ok stop) :
    ∃ mark digits, announcedBase? ['0', mark] = some base ∧ digits ≠ [] ∧
      (∀ character ∈ digits, isBasedDigit base character = true) ∧
      start.Reaches ('0' :: mark :: digits) stop := by
  obtain ⟨mark, rest, starts, isMark⟩ := announcedBase?_cases announced
  unfold basedDigits at run
  simp only at run
  split at run
  · cases run
  · rename_i moved
    cases run
    have reaches := (Place.reaches_advance start 2).trans
      (Place.reaches_skipWhile _ (isBasedDigit base))
    refine ⟨mark, (start.advance 2).rest.takeWhile (isBasedDigit base), isMark, ?_,
      fun _ isIn => List.mem_takeWhile_imp isIn, ?_⟩
    · intro none
      apply moved
      have stays := Place.reaches_skipWhile (start.advance 2) (isBasedDigit base)
      rw [none] at stays
      exact stays.offset
    · rwa [starts] at reaches

/-- The end of a number, behind its digits. -/
theorem numberEnd_reads {digits : Place}
    (run : (let last := if digits.current = some 'n' then digits.step else digits
      if last.current.any isNamePart then .error (invalidNumber start last.step)
      else .ok last) = Except.ok stop) :
    ∃ suffix, IsSuffix suffix ∧ digits.Reaches suffix stop := by
  obtain ⟨suffix, isSuffix, reaches⟩ := suffix_isSuffix digits
  simp only at run
  generalize (if digits.current = some 'n' then digits.step else digits) = last at run reaches
  split at run
  · cases run
  · cases run
    exact ⟨suffix, isSuffix, reaches⟩

/-- What is read as a number has the form of one. -/
theorem number_isNumber {first : Char} {rest : Text} (starts : start.rest = first :: rest)
    (isStart : Token.startsNumber start first = true) (run : number start = .ok stop) :
    ∃ text, start.Reaches text stop ∧ IsNumber text := by
  unfold number at run
  split at run
  · rename_i base announced
    cases based : basedDigits base start with
    | error fault => simp [based, bind, Except.bind] at run
    | ok last =>
        rw [based] at run
        obtain ⟨mark, digits, isMark, nonempty, each, reaches⟩ :=
          basedDigits_isBased announced based
        obtain ⟨suffix, isSuffix, toStop⟩ := numberEnd_reads run
        exact ⟨_, reaches.trans toStop, .based isMark nonempty each isSuffix⟩
  · obtain ⟨exponent, isExponent, toExponent⟩ :=
      exponent_isExponent (fraction (start.skipWhile isDigitOrSeparator))
    obtain ⟨suffix, isSuffix, toStop⟩ := numberEnd_reads run
    have behind := toExponent.trans toStop
    by_cases digit : first.isDigit = true
    · obtain ⟨fraction, isFraction, toFraction⟩ :=
        fraction_isFraction (start.skipWhile isDigitOrSeparator)
      refine ⟨_, (Place.reaches_skipWhile start isDigitOrSeparator).trans (toFraction.trans behind),
        .decimal (.takeWhile _) isFraction isExponent isSuffix (.inl ?_)⟩
      have part : isDigitOrSeparator first = true := by simp [isDigitOrSeparator, digit]
      simp [starts, part, digit]
    · -- Without a digit in front, the number starts with a point and a digit.
      obtain ⟨rfl, digit, digits, rfl, isDigit⟩ :
          first = '.' ∧ ∃ digit digits, rest = digit :: digits ∧ digit.isDigit = true := by
        simp only [Token.startsNumber, Bool.or_eq_true, Bool.and_eq_true, beq_iff_eq] at isStart
        obtain ⟨point, follows⟩ := isStart.resolve_left digit
        cases rest with
        | nil => simp [Place.ahead, starts] at follows
        | cons digit digits =>
            exact ⟨point, digit, digits, rfl, by simpa [Place.ahead, starts] using follows⟩
      have still : start.skipWhile isDigitOrSeparator = start := by
        have none : ∀ character ∈ ([] : Text), isDigitOrSeparator character = true := by simp
        have stops : start.rest.head?.any isDigitOrSeparator = false := by
          rw [starts]
          rfl
        exact Place.skipWhile_append isDigitOrSeparator none stops start.offset
      rw [still] at behind
      have reaches := (fraction_point starts).trans behind
      have part : isDigitOrSeparator digit = true := by simp [isDigitOrSeparator, isDigit]
      have run : IsRun (digit :: digits.takeWhile isDigitOrSeparator) :=
        List.takeWhile_cons_of_pos part ▸ IsRun.takeWhile (digit :: digits)
      rw [List.takeWhile_cons_of_pos part] at reaches
      have nothing : IsRun [] := by simp [IsRun]
      exact ⟨_, reaches, .decimal nothing (.inr ⟨_, rfl, run⟩) isExponent isSuffix
        (.inr ⟨rfl, digit, _, rfl, isDigit⟩)⟩

theorem IsNumber.ne_nil {text : Text} (isNumber : IsNumber text) : text ≠ [] := by
  cases isNumber with
  | based => simp
  | @decimal whole fraction exponent suffix _ _ _ _ starts =>
      rcases starts with digit | ⟨rfl, digit, digits, rfl, -⟩
      · rintro empty
        rw [(List.append_eq_nil_iff.mp empty).1] at digit
        cases digit
      · simp

/-! ### What is read again -/

section

variable {whole fraction exponent suffix : Text}

theorem IsSuffix.head (isSuffix : IsSuffix suffix) (test : Char → Bool)
    (other : test 'n' = false) : suffix.head?.any test = false := by
  rcases isSuffix with rfl | rfl
  · rfl
  · simpa using other

theorem IsExponent.head (isExponent : IsExponent exponent) (isSuffix : IsSuffix suffix)
    (test : Char → Bool) (others : test 'e' = false ∧ test 'E' = false ∧ test 'n' = false) :
    (exponent ++ suffix).head?.any test = false := by
  rcases isExponent with rfl | ⟨mark, sign, digit, digits, rfl, rfl | rfl, -⟩
  · exact isSuffix.head test others.2.2
  · simpa using others.1
  · simpa using others.2.1

theorem IsFraction.head (isFraction : IsFraction fraction) (isExponent : IsExponent exponent)
    (isSuffix : IsSuffix suffix) (test : Char → Bool) (point : test '.' = false)
    (others : test 'e' = false ∧ test 'E' = false ∧ test 'n' = false) :
    (fraction ++ (exponent ++ suffix)).head?.any test = false := by
  rcases isFraction with rfl | ⟨digits, rfl, -⟩
  · exact isExponent.head isSuffix test others
  · simpa using point

theorem fraction_append (isFraction : IsFraction fraction) (isExponent : IsExponent exponent)
    (isSuffix : IsSuffix suffix) (offset : Nat) :
    Lexeme.fraction ⟨offset, fraction ++ (exponent ++ suffix)⟩ =
      ⟨offset + Text.size fraction, exponent ++ suffix⟩ := by
  unfold Lexeme.fraction
  rcases isFraction with rfl | ⟨digits, rfl, isRun⟩
  · have other : (exponent ++ suffix).head?.any (· == '.') = false :=
      isExponent.head isSuffix _ ⟨rfl, rfl, rfl⟩
    have notPoint : (exponent ++ suffix).head? ≠ some '.' := by
      intro same
      rw [same] at other
      cases other
    exact if_neg notPoint
  · have skips := Place.skipWhile_append isDigitOrSeparator isRun
      (isExponent.head isSuffix _ ⟨rfl, rfl, rfl⟩) (offset + Char.utf8Size '.')
    rw [Text.size_cons, ← Nat.add_assoc]
    exact (if_pos rfl).trans skips

theorem exponent_append (isExponent : IsExponent exponent) (isSuffix : IsSuffix suffix)
    (offset : Nat) :
    Lexeme.exponent ⟨offset, exponent ++ suffix⟩ = ⟨offset + Text.size exponent, suffix⟩ := by
  unfold Lexeme.exponent
  rcases isExponent with rfl | ⟨mark, sign, digit, digits, rfl, isMark, isSign, isDigit, isRun⟩
  · refine if_neg ?_
    rcases isSuffix with rfl | rfl <;> rintro (same | same) <;> cases same
  · have marked : Place.current ⟨offset, mark :: (sign ++ digit :: digits) ++ suffix⟩ = some 'e' ∨
        Place.current ⟨offset, mark :: (sign ++ digit :: digits) ++ suffix⟩ = some 'E' := by
      rcases isMark with rfl | rfl
      · exact .inl rfl
      · exact .inr rfl
    rw [if_pos marked]
    have run : IsRun (digit :: digits) := by
      intro character isIn
      rcases List.mem_cons.mp isIn with rfl | later
      · simp [isDigitOrSeparator, isDigit]
      · exact isRun character later
    have skips (start : Nat) :=
      Place.skipWhile_append isDigitOrSeparator run (isSuffix.head _ rfl) start
    have notSign : digit ≠ '+' ∧ digit ≠ '-' :=
      ⟨fun same => by simp [same] at isDigit, fun same => by simp [same] at isDigit⟩
    rcases isSign with rfl | rfl | rfl
    · have unsigned :
          ¬(Place.ahead ⟨offset, mark :: ([] ++ digit :: digits) ++ suffix⟩ 1 = some '+' ∨
          Place.ahead ⟨offset, mark :: ([] ++ digit :: digits) ++ suffix⟩ 1 = some '-') := by
        simpa [Place.ahead] using notSign
      simp only [unsigned, if_false]
      rw [if_pos (by simpa [Place.ahead] using isDigit)]
      simpa [Place.advance, Nat.add_assoc] using skips (offset + Text.size [mark])
    all_goals
      simp only [Place.ahead, List.cons_append, List.getElem?_cons_succ, List.getElem?_cons_zero,
        true_or, or_true, if_true]
      rw [if_pos (by simpa using isDigit)]
      simpa [Place.advance, Nat.add_assoc] using skips (offset + Text.size [mark, _])

theorem numberEnd_append (place : Place) (isSuffix : IsSuffix suffix) (offset : Nat) :
    (let last := if (Place.mk offset suffix).current = some 'n' then (Place.mk offset suffix).step
      else ⟨offset, suffix⟩
    if last.current.any isNamePart then Except.error (invalidNumber place last.step)
    else .ok last) = .ok ⟨offset + Text.size suffix, []⟩ := by
  rcases isSuffix with rfl | rfl <;> rfl

/-- The characters of a number without an announced base and without a
suffix. -/
theorem decimal_characters (isWhole : IsRun whole) (isFraction : IsFraction fraction)
    (isExponent : IsExponent exponent) :
    ∀ character ∈ whole ++ (fraction ++ exponent),
      isDigitOrSeparator character = true ∨ character ∈ ['.', 'e', 'E', '+', '-'] := by
  simp only [List.forall_mem_append]
  refine ⟨fun _ isIn => .inl (isWhole _ isIn), ?_, ?_⟩
  · rcases isFraction with rfl | ⟨digits, rfl, isRun⟩
    · simp
    · simpa using fun _ isIn => .inl (isRun _ isIn)
  · rcases isExponent with rfl | ⟨mark, sign, digit, digits, rfl, isMark, isSign, isDigit, isRun⟩
    · simp
    · simp only [List.forall_mem_cons, List.forall_mem_append]
      refine ⟨.inr ?_, ?_, .inl (by simp [isDigitOrSeparator, isDigit]),
        fun _ isIn => .inl (isRun _ isIn)⟩
      · rcases isMark with rfl | rfl <;> simp
      · rcases isSign with rfl | rfl | rfl <;> simp

/-- No base is announced by characters of a decimal number. -/
theorem announcedBase?_none {text : Text}
    (each : ∀ character ∈ text, isDigitOrSeparator character = true ∨
      character ∈ ['.', 'e', 'E', '+', '-', 'n']) : announcedBase? text = none := by
  cases announced : announcedBase? text with
  | none => rfl
  | some base =>
      obtain ⟨mark, rest, rfl, isMark⟩ := announcedBase?_cases announced
      have isPart := each mark (by simp)
      have marks := (announced_mark isMark).1
      simp only [List.mem_cons, List.not_mem_nil, or_false] at marks
      rcases marks with rfl | rfl | rfl | rfl | rfl | rfl <;> simp [isDigitOrSeparator] at isPart

theorem decimal_unannounced (isWhole : IsRun whole) (isFraction : IsFraction fraction)
    (isExponent : IsExponent exponent) (isSuffix : IsSuffix suffix) :
    announcedBase? (whole ++ (fraction ++ (exponent ++ suffix))) = none := by
  refine announcedBase?_none fun character isIn => ?_
  have isIn : character ∈ whole ++ (fraction ++ exponent) ∨ character ∈ suffix := by
    simpa [or_assoc] using isIn
  rcases isIn with isIn | isIn
  · refine (decimal_characters isWhole isFraction isExponent character isIn).imp id fun isMark => ?_
    exact List.mem_append_left ['n'] isMark
  · rcases isSuffix with rfl | rfl
    · cases isIn
    · exact .inr (List.mem_append_right ['.', 'e', 'E', '+', '-'] isIn)

end

/-- A text that has the form of a number is read as a number. -/
theorem IsNumber.number_eq {text : Text} (isNumber : IsNumber text) (offset : Nat) :
    number ⟨offset, text⟩ = .ok ⟨offset + Text.size text, []⟩ := by
  cases isNumber with
  | @based mark base digits suffix announced nonempty each isSuffix =>
      have skips := Place.skipWhile_append (isBasedDigit base) each (isSuffix.head _ ?_)
        (offset + Text.size ['0', mark])
      · have more := Text.size_pos nonempty
        have read : basedDigits base ⟨offset, '0' :: mark :: (digits ++ suffix)⟩ =
            .ok ⟨offset + Text.size ['0', mark] + Text.size digits, suffix⟩ := by
          unfold basedDigits
          refine (if_neg ?_).trans (congrArg Except.ok skips)
          intro stays
          have moved := (congrArg Place.offset skips).symm.trans stays
          change offset + Text.size ['0', mark] + Text.size digits = offset + Text.size ['0', mark]
            at moved
          omega
        have ends := numberEnd_append ⟨offset, '0' :: mark :: (digits ++ suffix)⟩ isSuffix
          (offset + Text.size ['0', mark] + Text.size digits)
        have same : announcedBase? ('0' :: mark :: (digits ++ suffix)) = some base := announced
        unfold number
        simp only [same, read, bind, Except.bind]
        refine ends.trans ?_
        simp [Nat.add_assoc]
      · rcases (announced_mark announced).2 with rfl | rfl | rfl <;> decide
  | @decimal whole fraction exponent suffix isWhole isFraction isExponent isSuffix starts =>
      have plain := decimal_unannounced isWhole isFraction isExponent isSuffix
      have skips := Place.skipWhile_append isDigitOrSeparator isWhole
        (isFraction.head isExponent isSuffix _ rfl ⟨rfl, rfl, rfl⟩) offset
      have ends := numberEnd_append ⟨offset, whole ++ (fraction ++ (exponent ++ suffix))⟩ isSuffix
        (offset + Text.size whole + Text.size fraction + Text.size exponent)
      unfold number
      simp only [plain, skips, fraction_append isFraction isExponent isSuffix,
        exponent_append isExponent isSuffix, bind, Except.bind]
      refine ends.trans ?_
      simp [Nat.add_assoc]

/-- A number starts with a digit, or with a point before one. -/
theorem IsNumber.startsNumber {first : Char} {rest : Text} (isNumber : IsNumber (first :: rest))
    (offset : Nat) : Token.startsNumber ⟨offset, first :: rest⟩ first = true := by
  generalize same : first :: rest = text at isNumber
  cases isNumber with
  | based =>
      cases same
      rfl
  | @decimal whole fraction exponent suffix _ _ _ _ starts =>
      rcases starts with digit | ⟨rfl, digit, digits, rfl, isDigit⟩
      · cases whole with
        | nil => cases digit
        | cons character others =>
            cases same
            have isDigit : first.isDigit = true := by simpa using digit
            simp [Token.startsNumber, isDigit]
      · cases same
        simpa [Token.startsNumber, Place.ahead] using isDigit

/-! ## Quoted strings -/

inductive IsQuoted (quote : Char) : Text → Prop where
  | none : IsQuoted quote []
  | plain {character : Char} {rest : Text} (notBackslash : character ≠ '\\')
      (inLine : ¬(character = '\n' ∨ character = '\r')) (other : character ≠ quote)
      (later : IsQuoted quote rest) : IsQuoted quote (character :: rest)
  | continued {rest : Text} (later : IsQuoted quote rest) :
      IsQuoted quote ('\\' :: '\r' :: '\n' :: rest)
  | hidden {hidden : Char} {rest : Text} (alone : hidden = '\r' → rest.head? ≠ some '\n')
      (later : IsQuoted quote rest) : IsQuoted quote ('\\' :: hidden :: rest)

theorem closingQuote_isQuoted {quote : Char} {text : Text} {offset : Nat} {stop : Place}
    (run : closingQuote quote text offset = .ok stop) :
    ∃ body, IsQuoted quote body ∧ (Place.mk offset text).Reaches (body ++ [quote]) stop := by
  fun_induction closingQuote quote text offset with
  | case1 => cases run
  | case2 => cases run
  | case3 rest offset ih =>
      obtain ⟨body, isQuoted, reaches⟩ := ih run
      exact ⟨_, .continued isQuoted,
        Place.reaches_cons (Place.reaches_cons (Place.reaches_cons reaches))⟩
  | case4 hidden rest offset notBreak ih =>
      obtain ⟨body, isQuoted, reaches⟩ := ih run
      refine ⟨_, .hidden ?_ isQuoted, Place.reaches_cons (Place.reaches_cons reaches)⟩
      rintro rfl feeds
      obtain ⟨more, rfl⟩ := List.head?_eq_some_iff.mp feeds
      exact notBreak _ rfl reaches.rest
  | case5 => cases run
  | case6 rest offset =>
      cases run
      exact ⟨[], .none, Place.reaches_cons (.refl _)⟩
  | case7 character rest offset notEnd _ notBackslash inLine other ih =>
      obtain ⟨body, isQuoted, reaches⟩ := ih run
      refine ⟨_, .plain ?_ inLine other isQuoted, Place.reaches_cons reaches⟩
      rintro rfl
      cases rest with
      | nil => exact notEnd rfl rfl
      | cons hidden rest => exact notBackslash hidden rest rfl rfl

theorem IsQuoted.closingQuote_eq {quote : Char} {body : Text} (isQuoted : IsQuoted quote body)
    (isQuote : quote = '"' ∨ quote = '\x27') (more : Text) (offset : Nat) :
    closingQuote quote (body ++ quote :: more) offset =
      .ok ⟨offset + Text.size body + quote.utf8Size, more⟩ := by
  have notBreak : quote ≠ '\\' ∧ quote ≠ '\n' ∧ quote ≠ '\r' := by
    rcases isQuote with rfl | rfl <;> decide
  induction isQuoted generalizing offset with
  | none =>
      rw [List.nil_append, closingQuote, if_neg (by simp [notBreak]), if_pos rfl]
      · rfl
      · exact fun same => absurd same notBreak.1
      · exact fun _ same => absurd same notBreak.1
      · exact fun _ _ same => absurd same notBreak.1
  | @plain character rest notBackslash inLine other later ih =>
      rw [List.cons_append, closingQuote, if_neg inLine, if_neg other, ih]
      · simp [Nat.add_assoc]
      · exact fun same => absurd same notBackslash
      · exact fun _ same => absurd same notBackslash
      · exact fun _ _ same => absurd same notBackslash
  | @continued rest later ih =>
      rw [List.cons_append, List.cons_append, List.cons_append, closingQuote, ih]
      have backslash : Char.utf8Size '\\' = 1 := rfl
      have breaks : Char.utf8Size '\r' = 1 ∧ Char.utf8Size '\n' = 1 := ⟨rfl, rfl⟩
      simp only [Text.size_cons]
      congr 2
      omega
  | @hidden hidden rest alone later ih =>
      rw [List.cons_append, List.cons_append, closingQuote, ih]
      · have backslash : Char.utf8Size '\\' = 1 := rfl
        simp only [Text.size_cons]
        congr 2
        omega
      · rintro more rfl same
        cases rest with
        | nil => exact notBreak.2.1 (List.cons.inj same).1
        | cons next rest =>
            obtain ⟨rfl, -⟩ := List.cons.inj same
            exact alone rfl rfl

theorem string_isQuoted {quote first : Char} {rest : Text} (starts : start.rest = first :: rest)
    (run : string start quote = .ok stop) :
    ∃ body, IsQuoted quote body ∧ start.Reaches (first :: (body ++ [quote])) stop := by
  unfold string at run
  split at run
  · rename_i found closed
    cases run
    obtain ⟨body, isQuoted, reaches⟩ := closingQuote_isQuoted closed
    exact ⟨body, isQuoted, (Place.reaches_step starts).trans reaches⟩
  · cases run

theorem IsQuoted.string_eq {quote : Char} {body : Text} (isQuoted : IsQuoted quote body)
    (isQuote : quote = '"' ∨ quote = '\x27') (offset : Nat) :
    string ⟨offset, quote :: (body ++ [quote])⟩ quote =
      .ok ⟨offset + Text.size (quote :: (body ++ [quote])), []⟩ := by
  unfold string
  simp only [Place.step, isQuoted.closingQuote_eq isQuote]
  simp [Nat.add_assoc]

/-! ## Patterns -/

/-- The form of what stands between the slashes of a pattern, beginning inside
or outside of brackets. -/
inductive IsPattern : Bool → Text → Prop where
  | none : IsPattern false []
  | hidden {inClass : Bool} {hidden : Char} {rest : Text} (inLine : isNewline hidden = false)
      (later : IsPattern inClass rest) : IsPattern inClass ('\\' :: hidden :: rest)
  | opens {inClass : Bool} {rest : Text} (later : IsPattern true rest) :
      IsPattern inClass ('[' :: rest)
  | closes {inClass : Bool} {rest : Text} (later : IsPattern false rest) :
      IsPattern inClass (']' :: rest)
  | plain {inClass : Bool} {character : Char} {rest : Text} (notBackslash : character ≠ '\\')
      (inLine : isNewline character = false) (notOpening : character ≠ '[')
      (notClosing : character ≠ ']') (notSlash : character = '/' → inClass = true)
      (later : IsPattern inClass rest) : IsPattern inClass (character :: rest)

theorem closingSlash_isPattern {inClass : Bool} {text : Text} {offset : Nat} {stop : Place}
    (run : closingSlash inClass text offset = .ok stop) :
    ∃ body, IsPattern inClass body ∧ (Place.mk offset text).Reaches (body ++ ['/']) stop := by
  fun_induction closingSlash inClass text offset with
  | case1 => cases run
  | case2 => cases run
  | case3 => cases run
  | case4 inClass hidden rest offset inLine ih =>
      obtain ⟨body, isPattern, reaches⟩ := ih run
      exact ⟨_, .hidden (by simpa using inLine) isPattern,
        Place.reaches_cons (Place.reaches_cons reaches)⟩
  | case5 => cases run
  | case6 inClass character rest offset _ _ _ closes =>
      cases run
      obtain ⟨rfl, rfl⟩ := closes
      exact ⟨[], .none, Place.reaches_cons (.refl _)⟩
  | case7 inClass rest offset _ _ _ _ ih =>
      obtain ⟨body, isPattern, reaches⟩ := ih run
      exact ⟨_, .opens isPattern, Place.reaches_cons reaches⟩
  | case8 inClass rest offset _ _ _ _ _ ih =>
      obtain ⟨body, isPattern, reaches⟩ := ih run
      exact ⟨_, .closes isPattern, Place.reaches_cons reaches⟩
  | case9 inClass character rest offset notEnd notBackslash inLine notEnding notOpening notClosing
      ih =>
      obtain ⟨body, isPattern, reaches⟩ := ih run
      refine ⟨_, .plain ?_ (by simpa using inLine) notOpening notClosing ?_ isPattern,
        Place.reaches_cons reaches⟩
      · rintro rfl
        cases rest with
        | nil => exact notEnd rfl rfl
        | cons hidden rest => exact notBackslash hidden rest rfl rfl
      · rintro rfl
        simpa using notEnding

theorem IsPattern.closingSlash_eq {inClass : Bool} {body : Text}
    (isPattern : IsPattern inClass body) (more : Text) (offset : Nat) :
    closingSlash inClass (body ++ '/' :: more) offset =
      .ok ⟨offset + Text.size body + 1, more⟩ := by
  induction isPattern generalizing offset with
  | none =>
      rw [List.nil_append, closingSlash, if_neg (by decide), if_pos ⟨rfl, rfl⟩]
      · rfl
      · exact nofun
      · exact nofun
  | @hidden inClass hidden rest inLine later ih =>
      rw [List.cons_append, List.cons_append, closingSlash, if_neg (by simp [inLine]), ih]
      have backslash : Char.utf8Size '\\' = 1 := rfl
      simp only [Text.size_cons]
      congr 2
      omega
  | @opens inClass rest later ih =>
      rw [List.cons_append, closingSlash, if_neg (by decide), if_neg (by simp), if_pos rfl, ih]
      · simp only [Text.size_cons, show Char.utf8Size '[' = 1 from rfl, Nat.add_assoc]
      · exact nofun
      · exact nofun
  | @closes inClass rest later ih =>
      rw [List.cons_append, closingSlash, if_neg (by decide), if_neg (by simp), if_neg (by decide),
        if_pos rfl, ih]
      · simp only [Text.size_cons, show Char.utf8Size ']' = 1 from rfl, Nat.add_assoc]
      · exact nofun
      · exact nofun
  | @plain inClass character rest notBackslash inLine notOpening notClosing notSlash later ih =>
      have notEnding : ¬(character = '/' ∧ inClass = false) := by
        rintro ⟨slash, outside⟩
        rw [notSlash slash] at outside
        cases outside
      rw [List.cons_append, closingSlash, if_neg (by simp [inLine]), if_neg notEnding,
        if_neg notOpening, if_neg notClosing, ih]
      · simp only [Text.size_cons, Nat.add_assoc]
      · exact fun same => absurd same notBackslash
      · exact fun _ _ same => absurd same notBackslash

theorem pattern_isPattern {first : Char} {rest : Text} (starts : start.rest = first :: rest)
    (run : pattern start = .ok stop) :
    ∃ body flags, IsPattern false body ∧ (∀ flag ∈ flags, isNamePart flag = true) ∧
      start.Reaches (first :: (body ++ '/' :: flags)) stop := by
  unfold pattern at run
  split at run
  · rename_i found closed
    cases run
    obtain ⟨body, isPattern, reaches⟩ := closingSlash_isPattern closed
    have whole := ((Place.reaches_step starts).trans reaches).trans
      (Place.reaches_skipWhile found isNamePart)
    refine ⟨body, found.rest.takeWhile isNamePart, isPattern,
      fun _ isIn => List.mem_takeWhile_imp isIn, ?_⟩
    simpa using whole
  · cases run

theorem IsPattern.pattern_eq {body flags : Text} (isPattern : IsPattern false body)
    (isFlags : ∀ flag ∈ flags, isNamePart flag = true) (offset : Nat) :
    pattern ⟨offset, '/' :: (body ++ '/' :: flags)⟩ =
      .ok ⟨offset + Text.size ('/' :: (body ++ '/' :: flags)), []⟩ := by
  unfold pattern
  simp only [Place.step, isPattern.closingSlash_eq, Place.skipWhile_all isNamePart isFlags]
  have slash : Char.utf8Size '/' = 1 := rfl
  simp [slash, Nat.add_assoc]

end Lexeme

end ScriptTree
