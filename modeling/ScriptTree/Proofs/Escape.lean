import ScriptTree.Proofs.Chunk
import ScriptTree.Proofs.Digits
import ScriptTree.Proofs.Newline
import ScriptTree.Proofs.Segment
import ScriptTree.Proofs.Units
import ScriptTree.Rebuild.Terminal

/-!
# What strings stand for

The text between two quotes falls into characters and escapes, each of which
stands for some code units.  Decoding a string that is scanned gives the text of
these units, and it fails only if an escape lacks its digits.
-/

namespace ScriptTree

open Recognizer (Complete)

namespace Escape

open WrittenNumber

variable {text rest after item digits : Text} {units : List Nat} {character : Char}

/-! ## The meaning of escapes -/

def controls : List (Char × Nat) :=
  [('n', 0x0A), ('t', 0x09), ('r', 0x0D), ('b', 0x08), ('f', 0x0C), ('v', 0x0B)]

structure IsOctal (digits : Text) (value : Nat) : Prop where
  length : digits.length ≤ 3
  read : natural? 8 digits = some value
  below : value < 256

structure LongestOctal (digits : Text) (value : Nat) (rest : Text) : Prop where
  isOctal : IsOctal digits value
  longest : ∀ more longer, more ≠ [] → more <+: rest → ¬IsOctal (digits ++ more) longer

/-- The code units for which a character or an escape stands, where `rest`
follows. -/
inductive Stands : Text → List Nat → Text → Prop where
  | plain {character : Char} {rest : Text} (notBackslash : character ≠ '\\') :
      Stands [character] (Units.ofChar character) rest
  | control {letter : Char} {unit : Nat} {rest : Text} (known : (letter, unit) ∈ controls) :
      Stands ['\\', letter] [unit] rest
  | zero {rest : Text} (alone : rest.head?.any Char.isDigit = false) :
      Stands ['\\', '0'] [0] rest
  | octal {digits : Text} {value : Nat} {rest : Text} (octal : LongestOctal digits value rest) :
      Stands ('\\' :: digits) [value] rest
  | byte {digits : Text} {value : Nat} {rest : Text} (length : digits.length = 2)
      (read : natural? 16 digits = some value) : Stands ('\\' :: 'x' :: digits) [value] rest
  | unit {digits : Text} {value : Nat} {rest : Text} (length : digits.length = 4)
      (read : natural? 16 digits = some value) : Stands ('\\' :: 'u' :: digits) [value] rest
  | codePoint {digits : Text} {character : Char} {rest : Text}
      (read : natural? 16 digits = some character.toNat) :
      Stands ('\\' :: 'u' :: '\x7b' :: (digits ++ ['\x7d'])) (Units.ofChar character) rest
  | surrogate {digits : Text} {value : Nat} {rest : Text}
      (read : natural? 16 digits = some value) (isHalf : 0xD800 ≤ value ∧ value < 0xE000) :
      Stands ('\\' :: 'u' :: '\x7b' :: (digits ++ ['\x7d'])) [value] rest
  | lineBreak {character : Char} {rest : Text} (ends : isNewline character = true)
      (alone : character = '\r' → rest.head? ≠ some '\n') : Stands ['\\', character] [] rest
  | returnFeed {rest : Text} : Stands ['\\', '\r', '\n'] [] rest
  /-- The digits eight and nine are among the other characters. -/
  | other {character : Char} {rest : Text} (noLetter : character ∉ letters)
      (inLine : isNewline character = false) (notOctal : digitOf? 8 character = none) :
      Stands ['\\', character] (Units.ofChar character) rest

/-- A text is read into code units from left to right, up to what is left. -/
inductive Reads : Text → List Nat → Text → Prop where
  | none (rest : Text) : Reads rest [] rest
  | item {item text rest : Text} {units more : List Nat} (stands : Stands item units text)
      (later : Reads text more rest) : Reads (item ++ text) (units ++ more) rest

/-- An escape that lacks its hexadecimal digits. -/
inductive Malformed : Text → Prop where
  | byte {text : Text}
      (noByte : ∀ digits more, text = digits ++ more → digits.length = 2 →
        natural? 16 digits = none) : Malformed ('\\' :: 'x' :: text)
  | unit {text : Text}
      (noUnit : ∀ digits more, text = digits ++ more → digits.length = 4 →
        natural? 16 digits = none)
      (noCodePoint : ∀ digits more value, text = '\x7b' :: (digits ++ '\x7d' :: more) →
        natural? 16 digits = some value → 0x10FFFF < value) : Malformed ('\\' :: 'u' :: text)

/-- What can be wrong with an escape that lacks its digits. -/
def flaws : List LiteralFlaw :=
  [.malformedByteEscape, .malformedUnitEscape, .malformedCodePoint, .codePointOutOfRange]

/-! ## Hexadecimal digits -/

theorem hexDigits?_iff {count value number : Nat} :
    hexDigits? count value text = some (number, after) ↔
      ∃ digits, text = digits ++ after ∧ digits.length = count ∧
        positional? 16 value digits = some number := by
  induction count generalizing value text with
  | zero =>
      rw [hexDigits?, Option.some.injEq, Prod.mk.injEq]
      constructor
      · rintro ⟨rfl, rfl⟩
        exact ⟨[], rfl, rfl, rfl⟩
      · rintro ⟨digits, rfl, none, read⟩
        obtain rfl := List.length_eq_zero_iff.mp none
        exact ⟨Option.some.inj read, rfl⟩
  | succ count ih =>
      cases text with
      | nil =>
          refine iff_of_false (by rintro ⟨⟩) ?_
          rintro ⟨digits, empty, long, -⟩
          rw [(List.append_eq_nil_iff.mp empty.symm).1] at long
          cases long
      | cons first rest =>
          rw [hexDigits?, Option.bind_eq_some_iff]
          constructor
          · rintro ⟨digit, found, run⟩
            obtain ⟨digits, rfl, rfl, read⟩ := ih.mp run
            exact ⟨first :: digits, rfl, rfl, by rw [positional?, found, Option.bind_some, read]⟩
          · rintro ⟨digits, same, long, read⟩
            obtain ⟨head, digits, rfl⟩ := List.exists_cons_of_length_eq_add_one long
            obtain ⟨rfl, rfl⟩ := List.cons.inj same
            rw [positional?] at read
            obtain ⟨digit, found, read⟩ := Option.bind_eq_some_iff.mp read
            exact ⟨digit, found, ih.mpr ⟨digits, rfl, by simpa using long, read⟩⟩

/-- So many hexadecimal digits are read as their value. -/
theorem hexDigits?_natural {count number : Nat} (positive : 0 < count) :
    hexDigits? count 0 text = some (number, after) ↔
      ∃ digits, text = digits ++ after ∧ digits.length = count ∧
        natural? 16 digits = some number := by
  rw [hexDigits?_iff]
  refine exists_congr fun digits => and_congr_right fun _ => and_congr_right fun long => ?_
  rw [natural?_eq]
  rintro rfl
  cases long
  cases positive

theorem hexDigits?_none {count : Nat} (positive : 0 < count) :
    hexDigits? count 0 text = none ↔
      ∀ digits more, text = digits ++ more → digits.length = count →
        natural? 16 digits = none := by
  constructor
  · intro none digits more same long
    cases read : natural? 16 digits with
    | none => rfl
    | some number =>
        rw [(hexDigits?_natural positive).mpr ⟨digits, same, long, read⟩] at none
        cases none
  · intro lacks
    cases run : hexDigits? count 0 text with
    | none => rfl
    | some result =>
        obtain ⟨digits, same, long, read⟩ := (hexDigits?_natural positive).mp run
        rw [lacks digits _ same long] at read
        cases read

theorem codePoint_iff {count value number : Nat} (small : value ≤ 0x10FFFF) :
    codePoint count value text = .ok (number, after) ↔
      ∃ digits, text = digits ++ '\x7d' :: after ∧ (0 < count ∨ digits ≠ []) ∧
        positional? 16 value digits = some number ∧ number ≤ 0x10FFFF := by
  induction text generalizing count value with
  | nil => exact iff_of_false (by rintro ⟨⟩) (by simp)
  | cons first rest ih =>
      rw [codePoint]
      split
      · rename_i closes
        rw [Except.ok.injEq, Prod.mk.injEq]
        constructor
        · rintro ⟨rfl, rfl⟩
          exact ⟨[], by rw [closes.1]; rfl, .inl closes.2, rfl, small⟩
        · rintro ⟨digits, same, -, read, -⟩
          cases digits with
          | nil => exact ⟨Option.some.inj read, (List.cons.inj same).2⟩
          | cons head digits =>
              -- The closing brace is no digit.
              rw [closes.1] at same
              obtain ⟨rfl, -⟩ := List.cons.inj same
              rw [positional?_none List.mem_cons_self rfl] at read
              cases read
      · rename_i notClosing
        have digitFirst {digits : Text} (same : first :: rest = digits ++ '\x7d' :: after)
            (nonempty : 0 < count ∨ digits ≠ []) :
            ∃ others, digits = first :: others ∧ rest = others ++ '\x7d' :: after := by
          cases digits with
          | nil =>
              exact absurd ⟨(List.cons.inj same).1, nonempty.resolve_right (by simp)⟩ notClosing
          | cons head digits =>
              obtain ⟨rfl, rfl⟩ := List.cons.inj same
              exact ⟨digits, rfl, rfl⟩
        cases found : digitOf? 16 first with
        | none =>
            refine iff_of_false (by rintro ⟨⟩) ?_
            rintro ⟨digits, same, nonempty, read, -⟩
            obtain ⟨others, rfl, -⟩ := digitFirst same nonempty
            rw [positional?_none (by simp) found] at read
            cases read
        | some digit =>
            dsimp only
            split
            · rename_i large
              refine iff_of_false (by rintro ⟨⟩) ?_
              rintro ⟨digits, same, nonempty, read, bound⟩
              obtain ⟨others, rfl, -⟩ := digitFirst same nonempty
              rw [positional?, found, Option.bind_some] at read
              have least := (positional?_bounds read).1
              have power : 1 ≤ 16 ^ others.length := Nat.one_le_pow _ _ (by omega)
              have := Nat.mul_le_mul_left (value * 16 + digit) power
              omega
            · rename_i bound
              rw [ih (by omega)]
              constructor
              · rintro ⟨digits, rfl, -, read, bound⟩
                exact ⟨first :: digits, rfl, .inr (by simp),
                  by rw [positional?, found, Option.bind_some, read], bound⟩
              · rintro ⟨digits, same, nonempty, read, bound⟩
                obtain ⟨others, rfl, behind⟩ := digitFirst same nonempty
                rw [positional?, found, Option.bind_some] at read
                exact ⟨others, behind, .inl (by omega), read, bound⟩

theorem codePoint_natural {number : Nat} :
    codePoint 0 0 text = .ok (number, after) ↔
      ∃ digits, text = digits ++ '\x7d' :: after ∧ natural? 16 digits = some number ∧
        number ≤ 0x10FFFF := by
  rw [codePoint_iff (by omega)]
  refine exists_congr fun digits => and_congr_right fun _ => ?_
  cases digits with
  | nil => simp [natural?]
  | cons first others => simp [natural?_eq]

theorem codePoint_fails :
    (∃ flaw, codePoint 0 0 text = .error flaw) ↔
      ∀ digits more value, text = digits ++ '\x7d' :: more →
        natural? 16 digits = some value → 0x10FFFF < value := by
  constructor
  · rintro ⟨flaw, fails⟩ digits more value same read
    by_contra bound
    rw [codePoint_natural.mpr ⟨digits, same, read, by omega⟩] at fails
    cases fails
  · intro lacks
    cases run : codePoint 0 0 text with
    | error flaw => exact ⟨flaw, rfl⟩
    | ok result =>
        obtain ⟨digits, same, read, bound⟩ := codePoint_natural.mp run
        have large := lacks digits _ _ same read
        omega

/-! ## Octal digits -/

/-- Octal digits are taken as long as they may be and are there. -/
theorem octalDigits_takes (count value : Nat) (text : Text) :
    ∃ digits, text = digits ++ (octalDigits count value text).2 ∧ digits.length ≤ count ∧
      positional? 8 value digits = some (octalDigits count value text).1 ∧
      (digits.length = count ∨ ∀ next, (octalDigits count value text).2.head? = some next →
        digitOf? 8 next = none) := by
  induction count generalizing value text with
  | zero => exact ⟨[], by rw [octalDigits]; rfl, Nat.le_refl _, by rw [octalDigits]; rfl, .inl rfl⟩
  | succ count ih =>
      cases text with
      | nil => exact ⟨[], rfl, Nat.zero_le _, rfl, .inr nofun⟩
      | cons first rest =>
          rw [octalDigits]
          cases found : digitOf? 8 first with
          | none =>
              refine ⟨[], rfl, Nat.zero_le _, rfl, .inr fun next same => ?_⟩
              rw [← Option.some.inj same, found]
          | some digit =>
              obtain ⟨digits, parts, length, read, stops⟩ := ih (value * 8 + digit) rest
              refine ⟨first :: digits, congrArg (first :: ·) parts, by simpa using length, ?_,
                stops.imp (by simp) id⟩
              rw [positional?, found, Option.bind_some, read]

/-- How many digits may follow depends on the first. -/
theorem octalDigits_longest {digit : Nat} (found : digitOf? 8 character = some digit)
    (text : Text) :
    ∃ digits, text = digits ++ (octalDigits (if digit ≤ 3 then 2 else 1) digit text).2 ∧
      LongestOctal (character :: digits) (octalDigits (if digit ≤ 3 then 2 else 1) digit text).1
        (octalDigits (if digit ≤ 3 then 2 else 1) digit text).2 := by
  obtain ⟨digits, parts, length, read, stops⟩ :=
    octalDigits_takes (if digit ≤ 3 then 2 else 1) digit text
  generalize octalDigits (if digit ≤ 3 then 2 else 1) digit text = run at parts read stops ⊢
  obtain ⟨value, after⟩ := run
  have below := digitOf?_lt found
  have whole : ∀ more, natural? 8 (character :: more) = positional? 8 digit more := by
    intro more
    rw [natural?_eq (by simp), positional?, found, Option.bind_some, Nat.zero_mul, Nat.zero_add]
  refine ⟨digits, parts, ⟨?_, ?_, ?_⟩, ?_⟩
  · rw [List.length_cons]
    split at length <;> omega
  · rw [whole, read]
  · refine Nat.lt_of_lt_of_le (positional?_bounds read).2 ?_
    split at length
    · exact Nat.mul_le_mul (show digit + 1 ≤ 4 by omega) (Nat.pow_le_pow_right (by omega) length)
    · exact Nat.le_trans
        (Nat.mul_le_mul (show digit + 1 ≤ 8 by omega) (Nat.pow_le_pow_right (by omega) length))
        (by decide)
  · rintro more longer nonempty starts ⟨fits, readMore, bound⟩
    rw [List.cons_append, whole] at readMore
    rcases stops with full | stops
    · have lower := (positional?_bounds readMore).1
      have := List.length_pos_iff.mpr nonempty
      rw [List.length_append] at lower
      simp only [List.length_append, List.length_cons] at fits
      split at full
      · omega
      · -- A third digit behind one above three is too much.
        rw [show digits.length + more.length = 2 by omega] at lower
        omega
    · obtain ⟨next, others, rfl⟩ := List.exists_cons_of_ne_nil nonempty
      obtain ⟨behind, rfl⟩ := starts
      rw [positional?_none (by simp) (stops next rfl)] at readMore
      cases readMore

/-- The longest octal escape is determined by the text. -/
theorem LongestOctal.unique {first second behind rest : Text} {value other : Nat}
    (longest : LongestOctal first value behind) (again : LongestOctal second other rest)
    (same : first ++ behind = second ++ rest) : first = second ∧ value = other ∧ behind = rest := by
  obtain rfl : first = second := by
    rcases List.append_eq_append_iff.mp same with ⟨more, rfl, parts⟩ | ⟨more, rfl, parts⟩
    · by_contra differs
      exact longest.longest more other (by simpa using differs) ⟨rest, parts.symm⟩ again.isOctal
    · by_contra differs
      exact again.longest more value (by simpa using differs) ⟨behind, parts.symm⟩ longest.isOctal
  exact ⟨rfl, Option.some.inj (longest.isOctal.read.symm.trans again.isOctal.read),
    List.append_cancel_left same⟩

/-! ## What is read -/

/-- What an escape stands for, or what is wrong with it. -/
def Outcome (text : Text) : Except LiteralFlaw (List Nat × Text) → Prop
  | .ok (units, after) => ∃ item, '\\' :: text = item ++ after ∧ Stands item units after
  | .error flaw => text = [] ∨ Malformed ('\\' :: text) ∧ flaw ∈ flaws

theorem unitsOf_toNat (character : Char) : unitsOf character.toNat = Units.ofChar character := by
  have valid : character.toNat.isValidChar := character.valid
  rw [unitsOf, if_pos valid, Char.ofNat_toNat]

theorem unitsOf_half {value : Nat} (isHalf : 0xD800 ≤ value ∧ value < 0xE000) :
    unitsOf value = [value] := by
  unfold unitsOf
  refine if_neg ?_
  simp only [Nat.isValidChar]
  omega

theorem unitsOf_cases {value : Nat} (bound : value ≤ 0x10FFFF) :
    (∃ character : Char, value = character.toNat) ∨ 0xD800 ≤ value ∧ value < 0xE000 := by
  by_cases valid : value.isValidChar
  · exact .inl ⟨Char.ofNat value, (Units.toNat_ofNat valid).symm⟩
  · simp only [Nat.isValidChar] at valid
    omega

theorem codePoint_flaw {count value : Nat} {flaw : LiteralFlaw}
    (run : codePoint count value text = .error flaw) : flaw ∈ flaws := by
  induction text generalizing count value with
  | nil =>
      cases run
      simp [flaws]
  | cons first rest ih =>
      rw [codePoint] at run
      split at run
      · cases run
      split at run
      · cases run
        simp [flaws]
      split at run
      · cases run
        simp [flaws]
      · exact ih run

theorem unicode_outcome (text : Text) : Outcome ('u' :: text) (unicode text) := by
  unfold unicode
  split
  · rename_i rest
    cases found : codePoint 0 0 rest with
    | ok result =>
        obtain ⟨value, after⟩ := result
        obtain ⟨digits, rfl, read, bound⟩ := codePoint_natural.mp found
        rcases unitsOf_cases bound with ⟨character, rfl⟩ | isHalf
        · refine ⟨'\\' :: 'u' :: '\x7b' :: (digits ++ ['\x7d']), by simp, ?_⟩
          rw [unitsOf_toNat]
          exact .codePoint read
        · refine ⟨'\\' :: 'u' :: '\x7b' :: (digits ++ ['\x7d']), by simp, ?_⟩
          rw [unitsOf_half isHalf]
          exact .surrogate read isHalf
    | error flaw =>
        refine .inr ⟨.unit ?_ ?_, codePoint_flaw found⟩
        · intro digits more same length
          obtain ⟨head, digits, rfl⟩ := List.exists_cons_of_length_eq_add_one length
          obtain ⟨rfl, -⟩ := List.cons.inj same
          exact natural?_none List.mem_cons_self rfl
        · exact fun digits more value same =>
            codePoint_fails.mp ⟨flaw, found⟩ digits more value (List.cons.inj same).2
  · rename_i noBrace
    cases found : hexDigits? 4 0 text with
    | some result =>
        obtain ⟨unit, after⟩ := result
        obtain ⟨digits, rfl, length, read⟩ := (hexDigits?_natural (by decide)).mp found
        exact ⟨_, rfl, .unit length read⟩
    | none =>
        refine .inr ⟨.unit ((hexDigits?_none (by decide)).mp found) ?_, by simp [flaws]⟩
        rintro digits more value rfl
        exact absurd rfl (noBrace _)

theorem digit_outcome (isDigit : character.isDigit = true) (noLetter : character ∉ letters)
    (inLine : isNewline character = false) (rest : Text) :
    Outcome (character :: rest) (digit .string character rest) := by
  unfold digit
  split
  · rename_i zero
    obtain ⟨rfl, alone⟩ := zero
    exact ⟨_, rfl, .zero alone⟩
  rw [if_neg (by decide)]
  cases found : digitOf? 8 character with
  | none => exact ⟨_, rfl, .other noLetter inLine found⟩
  | some value =>
      obtain ⟨digits, parts, longest⟩ := octalDigits_longest found rest
      exact ⟨_, congrArg ('\\' :: character :: ·) parts, .octal longest⟩

/-- What follows a backslash is an escape, or it lacks its digits. -/
theorem read_outcome (text : Text) : Outcome text (read .string text) := by
  cases text with
  | nil => exact .inl rfl
  | cons character rest =>
      by_cases special : character ∈ letters
      · simp only [letters, List.mem_cons, List.not_mem_nil, or_false] at special
        rcases special with rfl | rfl | rfl | rfl | rfl | rfl | rfl | rfl
        case inr.inr.inr.inr.inr.inr.inl =>
          rw [read]
          cases found : hexDigits? 2 0 rest with
          | some result =>
              obtain ⟨unit, after⟩ := result
              obtain ⟨digits, rfl, length, value⟩ := (hexDigits?_natural (by decide)).mp found
              exact ⟨_, rfl, .byte length value⟩
          | none => exact .inr ⟨.byte ((hexDigits?_none (by decide)).mp found), by simp [flaws]⟩
        case inr.inr.inr.inr.inr.inr.inr =>
          rw [read]
          exact unicode_outcome rest
        all_goals exact ⟨_, rfl, .control (by simp [controls])⟩
      · by_cases paired : character = '\r' ∧ rest.head? = some '\n'
        · obtain ⟨rfl, feeds⟩ := paired
          obtain ⟨more, rfl⟩ := List.head?_eq_some_iff.mp feeds
          exact ⟨_, rfl, .returnFeed⟩
        · have alone : character = '\r' → rest.head? ≠ some '\n' :=
            fun isReturn feeds => paired ⟨isReturn, feeds⟩
          rw [read_of_not_mem special alone]
          split
          · rename_i ends
            exact ⟨_, rfl, .lineBreak ends alone⟩
          rename_i notNewline
          have inLine := Bool.eq_false_iff.mpr notNewline
          split
          · rename_i isDigit
            exact digit_outcome isDigit special inLine rest
          · rename_i notDigit
            refine ⟨_, rfl, .other special inLine ?_⟩
            cases found : digitOf? 8 character with
            | none => rfl
            | some value => exact absurd (isDigit_of_digitOf? (by decide) found) notDigit

/-! ## All that is read -/

theorem read_digit (isDigit : character.isDigit = true) (rest : Text) :
    read .string (character :: rest) = digit .string character rest := by
  have no (other : Char) (notDigit : other.isDigit = false) : character ≠ other := by
    rintro rfl
    rw [isDigit] at notDigit
    cases notDigit
  have noLetter : character ∉ letters := by simp [letters, no]
  have inLine : isNewline character = false := by simp [isNewline, no]
  rw [read_of_not_mem noLetter fun isReturn => absurd isReturn (no _ rfl), inLine,
    if_neg Bool.false_ne_true, if_pos isDigit]

theorem read_octal {value : Nat} (octal : LongestOctal digits value rest) :
    read .string (digits ++ rest) = .ok ([value], rest) := by
  have known := octal.isOctal.read
  cases digits with
  | nil => cases known
  | cons first digits =>
      rw [natural?_eq (by simp)] at known
      obtain ⟨leading, found⟩ := digits_of_positional? known List.mem_cons_self
      rw [List.cons_append, read_digit (isDigit_of_digitOf? (by decide) found), digit]
      split
      · -- A zero that stands alone is an octal escape, too.
        rename_i zero
        obtain ⟨rfl, alone⟩ := zero
        cases digits with
        | nil =>
            obtain rfl : 0 = value := Option.some.inj known
            rfl
        | cons second digits =>
            obtain ⟨digit, found⟩ :=
              digits_of_positional? known (List.mem_cons_of_mem _ List.mem_cons_self)
            have isDigit := isDigit_of_digitOf? (by decide) found
            simp [isDigit] at alone
      · rw [if_neg (by decide), found]
        dsimp only
        obtain ⟨taken, parts, longest⟩ := octalDigits_longest found (digits ++ rest)
        generalize octalDigits (if leading ≤ 3 then 2 else 1) leading (digits ++ rest) = run
          at parts longest ⊢
        obtain ⟨-, rfl, rfl⟩ := octal.unique longest (congrArg (first :: ·) parts)
        rfl

theorem read_unit {unit : Nat} (length : digits.length = 4)
    (value : natural? 16 digits = some unit) :
    read .string ('u' :: (digits ++ rest)) = .ok ([unit], rest) := by
  have run : hexDigits? 4 0 (digits ++ rest) = some (unit, rest) :=
    (hexDigits?_natural (by decide)).mpr ⟨digits, rfl, length, value⟩
  obtain ⟨first, others, rfl⟩ := List.exists_cons_of_length_eq_add_one length
  have noBrace : first ≠ '\x7b' := by
    rintro rfl
    rw [natural?_none List.mem_cons_self rfl] at value
    cases value
  rw [read, List.cons_append, unicode_of_ne noBrace, ← List.cons_append, run]

theorem read_codePoint {number : Nat} (value : natural? 16 digits = some number)
    (bound : number ≤ 0x10FFFF) :
    read .string ('u' :: '\x7b' :: (digits ++ '\x7d' :: rest)) = .ok (unitsOf number, rest) := by
  rw [read, unicode, codePoint_natural.mpr ⟨digits, rfl, value, bound⟩]
  rfl

/-- Every escape is read. -/
theorem Stands.read_eq {more : Text} (stands : Stands ('\\' :: more) units rest) :
    read .string (more ++ rest) = .ok (units, rest) := by
  cases stands with
  | plain notBackslash => exact absurd rfl notBackslash
  | control known =>
      simp only [controls, List.mem_cons, Prod.mk.injEq, List.not_mem_nil, or_false] at known
      rcases known with ⟨rfl, rfl⟩ | ⟨rfl, rfl⟩ | ⟨rfl, rfl⟩ | ⟨rfl, rfl⟩ | ⟨rfl, rfl⟩ |
        ⟨rfl, rfl⟩ <;> rfl
  | zero alone => rw [List.singleton_append, read_digit rfl, digit, if_pos ⟨rfl, alone⟩]
  | octal octal => exact read_octal octal
  | byte length value =>
      rw [List.cons_append, read, (hexDigits?_natural (by decide)).mpr ⟨_, rfl, length, value⟩]
  | unit length value => exact read_unit length value
  | @codePoint digits character _ value =>
      have valid := Units.toNat_valid character
      rw [← unitsOf_toNat, List.cons_append, List.cons_append, List.append_assoc]
      exact read_codePoint value (by omega)
  | surrogate value isHalf =>
      rw [← unitsOf_half isHalf, List.cons_append, List.cons_append, List.append_assoc]
      exact read_codePoint value (by omega)
  | @lineBreak character _ ends alone =>
      have noLetter : character ∉ letters := by
        simp only [isNewline, Bool.or_eq_true, beq_iff_eq] at ends
        rcases ends with ((rfl | rfl) | rfl) | rfl <;> decide
      rw [List.singleton_append, read_of_not_mem noLetter alone, if_pos ends]
  | returnFeed => rfl
  | @other character _ noLetter inLine notOctal =>
      have notReturn : character ≠ '\r' := by
        rintro rfl
        cases inLine
      by_cases isDigit : character.isDigit = true
      · have notZero : character ≠ '0' := by
          rintro rfl
          cases notOctal
        rw [List.singleton_append, read_digit isDigit, digit, if_neg fun zero => notZero zero.1,
          if_neg (by decide), notOctal]
      · rw [List.singleton_append, read_of_not_mem noLetter fun same => absurd same notReturn,
          inLine, if_neg Bool.false_ne_true, if_neg isDigit]

/-- An escape without its digits is not read. -/
theorem Malformed.read_error (malformed : Malformed ('\\' :: text)) :
    ∃ flaw, read .string text = .error flaw := by
  cases malformed with
  | byte noByte =>
      rw [read, (hexDigits?_none (by decide)).mpr noByte]
      exact ⟨_, rfl⟩
  | unit noUnit noCodePoint =>
      rw [read]
      unfold unicode
      split
      · obtain ⟨flaw, fails⟩ := codePoint_fails.mpr fun digits more value same =>
          noCodePoint digits more value (congrArg ('\x7b' :: ·) same)
        exact ⟨flaw, by rw [fails]; rfl⟩
      · rw [(hexDigits?_none (by decide)).mpr noUnit]
        exact ⟨_, rfl⟩

/-! ## From left to right -/

theorem not_mem_digits {base value : Nat} (noDigit : digitOf? base character = none)
    (read : natural? base digits = some value) : character ∉ digits := by
  intro isIn
  rw [natural?_none isIn noDigit] at read
  cases read

/-- A character, or a backslash with what it hides and no other backslash. -/
theorem Stands.item_cases (stands : Stands item units rest) :
    (∃ character, item = [character] ∧ character ≠ '\\' ∧ units = Units.ofChar character) ∨
      ∃ hidden more, item = '\\' :: hidden :: more ∧ '\\' ∉ more := by
  have noDigit (base : Nat) : digitOf? base '\\' = none := rfl
  cases stands with
  | plain notBackslash => exact .inl ⟨_, rfl, notBackslash, rfl⟩
  | @octal digits value _ octal =>
      have none := not_mem_digits (noDigit 8) octal.isOctal.read
      obtain ⟨first, others, rfl⟩ : ∃ first others, digits = first :: others := by
        cases digits with
        | nil => cases octal.isOctal.read
        | cons first others => exact ⟨first, others, rfl⟩
      exact .inr ⟨first, others, rfl, fun isIn => none (List.mem_cons_of_mem _ isIn)⟩
  | byte length read | unit length read => exact .inr ⟨_, _, rfl, not_mem_digits (noDigit 16) read⟩
  | codePoint read | surrogate read =>
      exact .inr ⟨_, _, rfl, by simpa using not_mem_digits (noDigit 16) read⟩
  | control | zero | lineBreak | returnFeed | other => exact .inr ⟨_, _, rfl, by simp⟩

theorem Stands.nonempty (stands : Stands item units rest) : 0 < item.length := by
  rcases stands.item_cases with ⟨character, rfl, -⟩ | ⟨hidden, more, rfl, -⟩ <;>
    exact Nat.succ_pos _

/-- No backslash is left without a character that it hides. -/
theorem Stands.complete (stands : Stands item units rest) (complete : Complete (item ++ rest)) :
    Complete rest := by
  rcases stands.item_cases with ⟨character, rfl, notBackslash, -⟩ | ⟨hidden, more, rfl, none⟩
  · exact complete.tail notBackslash
  · have later : Complete (more ++ rest) := by
      cases complete with
      | plain notBackslash => exact absurd rfl notBackslash
      | escape later => exact later
    clear complete stands
    induction more with
    | nil => exact later
    | cons first others ih =>
        obtain ⟨notFirst, none⟩ := List.ne_and_not_mem_of_not_mem_cons none
        exact ih none (later.tail notFirst.symm)

theorem unitsFrom_item (stands : Stands item units rest) (fuel : Nat) :
    unitsFrom .string (fuel + 1) (item ++ rest) =
      (unitsFrom .string fuel rest).map (units ++ ·) := by
  rcases stands.item_cases with ⟨character, rfl, notBackslash, rfl⟩ | ⟨hidden, more, rfl, -⟩
  · rw [List.singleton_append, unitsFrom, if_neg (by simp)]
    exact notBackslash
  · rw [List.cons_append, unitsFrom, stands.read_eq]
    change (unitsFrom .string fuel rest).bind _ = _
    cases unitsFrom .string fuel rest <;> rfl

/-- What is read first does not depend on what is read behind it. -/
theorem Reads.unitsFrom_eq {fuel : Nat} (reads : Reads text units rest)
    (enough : text.length ≤ fuel) :
    ∃ left, rest.length ≤ left ∧
      unitsFrom .string fuel text = (unitsFrom .string left rest).map (units ++ ·) := by
  induction reads generalizing fuel with
  | none rest =>
      refine ⟨fuel, enough, ?_⟩
      cases unitsFrom .string fuel rest <;> rfl
  | @item item text rest units more stands later ih =>
      have some := stands.nonempty
      rw [List.length_append] at enough
      obtain ⟨fuel, rfl⟩ : ∃ fewer, fuel = fewer + 1 := ⟨fuel - 1, by omega⟩
      obtain ⟨left, enoughLeft, same⟩ := @ih fuel (by omega)
      refine ⟨left, enoughLeft, ?_⟩
      rw [unitsFrom_item stands, same]
      cases unitsFrom .string left rest with
      | error flaw => rfl
      | ok found => simp [Except.map]

/-- What is known of the code units of a text. -/
def Known (text : Text) : Except LiteralFlaw (List Nat) → Prop
  | .ok units => Reads text units []
  | .error flaw => flaw ∈ flaws ∧ ∃ units rest, Reads text units rest ∧ Malformed rest

theorem known_item {result : Except LiteralFlaw (List Nat)} (stands : Stands item units rest)
    (known : Known rest result) : Known (item ++ rest) (result.map (units ++ ·)) := by
  cases result with
  | ok more => exact .item stands known
  | error flaw =>
      obtain ⟨isFlaw, more, behind, reads, malformed⟩ := known
      exact ⟨isFlaw, units ++ more, behind, .item stands reads, malformed⟩

/-- A text is read up to its end or up to an escape without its digits. -/
theorem unitsFrom_known {fuel : Nat} (enough : text.length ≤ fuel) (complete : Complete text) :
    Known text (unitsFrom .string fuel text) := by
  induction fuel generalizing text with
  | zero =>
      obtain rfl := List.length_eq_zero_iff.mp (Nat.le_zero.mp enough)
      exact .none []
  | succ fuel ih =>
      have further {item rest : Text} {units : List Nat} (stands : Stands item units rest)
          (parts : text = item ++ rest) : Known text (unitsFrom .string (fuel + 1) text) := by
        subst parts
        have some := stands.nonempty
        rw [List.length_append] at enough
        rw [unitsFrom_item stands]
        exact known_item stands (ih (by omega) (stands.complete complete))
      cases text with
      | nil => exact .none []
      | cons first rest =>
          by_cases escapes : first = '\\'
          · subst escapes
            have outcome := read_outcome rest
            cases run : read .string rest with
            | ok result =>
                rw [run] at outcome
                obtain ⟨item, parts, stands⟩ := outcome
                exact further stands parts
            | error flaw =>
                rw [run] at outcome
                rcases outcome with rfl | ⟨malformed, isFlaw⟩
                · cases complete with
                  | plain notBackslash => exact absurd rfl notBackslash
                · rw [unitsFrom, run]
                  exact ⟨isFlaw, [], _, .none _, malformed⟩
          · exact further (.plain escapes) rfl

theorem Malformed.starts (malformed : Malformed rest) : ∃ text, rest = '\\' :: text := by
  cases malformed with
  | byte => exact ⟨_, rfl⟩
  | unit => exact ⟨_, rfl⟩

theorem Malformed.unitsFrom_error {fuel : Nat} (malformed : Malformed rest)
    (enough : rest.length ≤ fuel) : ∃ flaw, unitsFrom .string fuel rest = .error flaw := by
  obtain ⟨text, rfl⟩ := malformed.starts
  obtain ⟨flaw, fails⟩ := malformed.read_error
  rw [List.length_cons] at enough
  obtain ⟨fuel, rfl⟩ : ∃ fewer, fuel = fewer + 1 := ⟨fuel - 1, by omega⟩
  exact ⟨flaw, by rw [unitsFrom, fails]; rfl⟩

theorem Stands.bounded (stands : Stands item units rest) : ∀ unit ∈ units, unit < 0x10000 := by
  have below {count value : Nat} {digits : Text} (few : count ≤ 4) (length : digits.length = count)
      (read : natural? 16 digits = some value) : value < 0x10000 := by
    have nonempty : digits ≠ [] := by
      rintro rfl
      cases read
    rw [natural?_eq nonempty] at read
    refine Nat.lt_of_lt_of_le (positional?_bounds read).2 ?_
    rw [length, Nat.zero_add, Nat.one_mul]
    exact Nat.pow_le_pow_right (by omega) few
  cases stands with
  | plain | codePoint | other => exact Units.ofChar_bounded _
  | control known =>
      have small : ∀ entry ∈ controls, entry.2 < 0x10000 := by decide
      simpa using small _ known
  | zero => simp
  | octal octal =>
      have := octal.isOctal.below
      simp only [List.mem_singleton, forall_eq]
      omega
  | byte length read => simpa using below (by decide) length read
  | unit length read => simpa using below (Nat.le_refl _) length read
  | surrogate read isHalf =>
      simp only [List.mem_singleton, forall_eq]
      omega
  | lineBreak | returnFeed => simp

theorem Reads.bounded (reads : Reads text units rest) : ∀ unit ∈ units, unit < 0x10000 := by
  induction reads with
  | none => simp
  | item stands later ih => exact List.forall_mem_append.mpr ⟨stands.bounded, ih⟩

/-! ## Decoding -/

variable {body : Text}

theorem cook_ok_iff (complete : Complete body) :
    cook .string body = .ok text ↔ ∃ units, Reads body units [] ∧ Units.Decodes units text := by
  have known := unitsFrom_known (Nat.le_refl _) complete
  unfold cook
  constructor
  · intro run
    cases found : unitsFrom .string body.length body with
    | error flaw =>
        rw [found] at run
        cases run
    | ok units =>
        rw [found] at run known
        cases run
        exact ⟨units, known, Units.decode_decodes (Reads.bounded known)⟩
  · rintro ⟨units, reads, decodes⟩
    obtain ⟨left, -, same⟩ := reads.unitsFrom_eq (Nat.le_refl _)
    rw [same, ← decodes.decode_eq]
    cases left <;> simp [unitsFrom, Except.map]

theorem cook_error_iff (complete : Complete body) :
    (∃ flaw, cook .string body = .error flaw) ↔
      ∃ units rest, Reads body units rest ∧ Malformed rest := by
  have known := unitsFrom_known (Nat.le_refl _) complete
  unfold cook
  constructor
  · rintro ⟨flaw, run⟩
    cases found : unitsFrom .string body.length body with
    | ok units =>
        rw [found] at run
        cases run
    | error flaw =>
        rw [found] at known
        exact known.2
  · rintro ⟨units, rest, reads, malformed⟩
    obtain ⟨left, enough, same⟩ := reads.unitsFrom_eq (Nat.le_refl _)
    obtain ⟨flaw, fails⟩ := malformed.unitsFrom_error enough
    exact ⟨flaw, by rw [same, fails]; rfl⟩

theorem cook_flaw {flaw : LiteralFlaw} (complete : Complete body)
    (run : cook .string body = .error flaw) : flaw ∈ flaws := by
  have known := unitsFrom_known (Nat.le_refl _) complete
  unfold cook at run
  cases found : unitsFrom .string body.length body with
  | ok units =>
      rw [found] at run
      cases run
  | error flaw =>
      rw [found] at run known
      cases run
      exact known.1

end Escape

/-- In a string that is scanned every backslash hides a character. -/
theorem Lexeme.IsQuoted.complete {quote : Char} {body : Text} (isQuoted : IsQuoted quote body) :
    Complete body := by
  induction isQuoted with
  | none => exact .none
  | plain notBackslash inLine other later ih => exact .plain notBackslash ih
  | continued later ih => exact .escape (.plain (by decide) ih)
  | hidden alone later ih => exact .escape ih

/-- Exactly the quotes are taken away. -/
theorem Literal.stringValue_quoted {quote : Char} (isQuote : quote = '"' ∨ quote = '\x27')
    (body : Text) :
    stringValue (quote :: (body ++ [quote])) =
      (Escape.cook .string body).map fun text => .string (String.ofList text) := by
  have width : Text.size [quote] = 1 := by rcases isQuote with rfl | rfl <;> rfl
  have inner : Text.slice? (quote :: (body ++ [quote])) (Text.size [quote])
      (Text.size [quote] + Text.size body) = some body :=
    Text.slice?_append [quote] body [quote]
  have whole : Text.size (quote :: (body ++ [quote])) - 1 = Text.size [quote] + Text.size body := by
    change Text.size ([quote] ++ (body ++ [quote])) - 1 = _
    rw [Text.size_append, Text.size_append, width]
    omega
  unfold stringValue
  rw [whole, ← width, inner]

theorem Rebuild.decodeLiteral_quoted {quote : Char} (isQuote : quote = '"' ∨ quote = '\x27')
    (body : Text) :
    decodeLiteral Literal.stringValue (String.ofList (quote :: (body ++ [quote]))) =
      match Escape.cook .string body with
      | .ok text =>
          .ok ⟨.string (String.ofList text), String.ofList (quote :: (body ++ [quote]))⟩
      | .error flaw => .error (.literal (String.ofList (quote :: (body ++ [quote]))) flaw) := by
  unfold decodeLiteral
  rw [String.toList_ofList, Literal.stringValue_quoted isQuote]
  cases Escape.cook .string body <;> rfl

namespace Token

theorem scan_isQuoted {dialect : Dialect} {place : Place} {patternAllowed : Bool} {token : Token}
    (run : scan dialect place patternAllowed = .ok token) (isString : token.kind = .string) :
    ∃ quote body, (quote = '"' ∨ quote = '\x27') ∧ Lexeme.IsQuoted quote body ∧
      token.text = quote :: (body ++ [quote]) := by
  obtain ⟨first, rest, starts, lexed⟩ := scan_lexeme run (by simp [isEnd, isString])
  have read := (lexeme_isLexeme lexed).readAs
  rw [isString] at read
  obtain ⟨body, isQuoted, reaches⟩ := Lexeme.string_isQuoted starts read.2
  exact ⟨first, body, read.1, isQuoted, (scan_scanned run).covers.text_unique reaches⟩

/-- A string that is scanned is decoded into the text of the code units for
which its characters and escapes stand.  It is not decoded if and only if an
escape lacks its digits. -/
theorem scan_string_value {dialect : Dialect} {place : Place} {patternAllowed : Bool}
    {token : Token} (run : scan dialect place patternAllowed = .ok token)
    (isString : token.kind = .string) :
    ∃ quote body, (quote = '"' ∨ quote = '\x27') ∧ token.text = quote :: (body ++ [quote]) ∧
      (∀ literal,
        Rebuild.decodeLiteral Literal.stringValue (String.ofList token.text) = .ok literal ↔
          ∃ units text, Escape.Reads body units [] ∧ Units.Decodes units text ∧
            literal = ⟨.string (String.ofList text), String.ofList token.text⟩) ∧
      ((∃ fault,
        Rebuild.decodeLiteral Literal.stringValue (String.ofList token.text) = .error fault) ↔
          ∃ units rest, Escape.Reads body units rest ∧ Escape.Malformed rest) ∧
      ∀ fault,
        Rebuild.decodeLiteral Literal.stringValue (String.ofList token.text) = .error fault →
          ∃ flaw ∈ Escape.flaws, fault = .literal (String.ofList token.text) flaw := by
  obtain ⟨quote, body, isQuote, isQuoted, spelled⟩ := scan_isQuoted run isString
  have complete := isQuoted.complete
  refine ⟨quote, body, isQuote, spelled, ?_⟩
  rw [spelled, Rebuild.decodeLiteral_quoted isQuote, ← Escape.cook_error_iff complete]
  cases found : Escape.cook .string body with
  | ok text =>
      refine ⟨fun literal => ?_, by simp, nofun⟩
      constructor
      · intro run
        cases run
        obtain ⟨units, reads, decodes⟩ := (Escape.cook_ok_iff complete).mp found
        exact ⟨units, text, reads, decodes, rfl⟩
      · rintro ⟨units, other, reads, decodes, rfl⟩
        have again := (Escape.cook_ok_iff complete).mpr ⟨units, reads, decodes⟩
        obtain rfl := Except.ok.inj (found.symm.trans again)
        rfl
  | error flaw =>
      refine ⟨fun literal => ?_, by simp, fun fault run => ?_⟩
      · refine iff_of_false nofun ?_
        rintro ⟨units, text, reads, decodes, -⟩
        rw [(Escape.cook_ok_iff complete).mpr ⟨units, reads, decodes⟩] at found
        cases found
      · cases run
        exact ⟨flaw, Escape.cook_flaw complete found, rfl⟩

/-- The halves of a pair may be written as two escapes. -/
theorem scan_string_value_pair :
    ∃ token quote body,
      scan .script (Place.first " '\\uD83D\\u\x7bDE00\x7d\\08' ".toList) false = .ok token ∧
      token.kind = .string ∧ token.text = quote :: (body ++ [quote]) ∧
      ∃ units text, Escape.Reads body units [] ∧ Units.Decodes units text ∧
        String.ofList text = "😀\x008" := by
  have run : ∃ token,
      scan .script (Place.first " '\\uD83D\\u\x7bDE00\x7d\\08' ".toList) false = .ok token ∧
        token.kind = .string ∧
        Rebuild.decodeLiteral Literal.stringValue (String.ofList token.text) =
          .ok ⟨.string "😀\x008", String.ofList token.text⟩ := ⟨_, rfl, rfl, rfl⟩
  obtain ⟨token, run, isString, decoded⟩ := run
  obtain ⟨quote, body, -, spelled, value, -⟩ := scan_string_value run isString
  obtain ⟨units, text, reads, decodes, same⟩ := (value _).mp decoded
  simp only [Literal.mk.injEq, LiteralValue.string.injEq, and_true] at same
  exact ⟨token, quote, body, run, isString, spelled, units, text, reads, decodes, same.symm⟩

end Token

end ScriptTree
