import ScriptTree.Grammar.Operator
import ScriptTree.Proofs.Scan

/-!
# Texts with single spaces between their tokens

Names, reserved words and operators are scanned one by one where a space
stands behind each of them.
-/

namespace ScriptTree

/-- Code points of blanks and line terminators. -/
def spaceCodes : List Nat :=
  [0x09, 0x0A, 0x0B, 0x0C, 0x0D, 0x20, 0x85, 0xA0, 0xFEFF, 0x1680, 0x2000, 0x2001, 0x2002, 0x2003,
    0x2004, 0x2005, 0x2006, 0x2007, 0x2008, 0x2009, 0x200A, 0x2028, 0x2029, 0x202F, 0x205F, 0x3000]

theorem spaceCodes_of_isBlank {character : Char} (blank : isBlank character = true) :
    character.toNat ∈ spaceCodes := by
  simp only [isBlank, Bool.or_eq_true, beq_iff_eq, Bool.and_eq_true, decide_eq_true_eq] at blank
  generalize character.toNat = code at blank
  simp only [spaceCodes, List.mem_cons, List.not_mem_nil, or_false]
  omega

theorem spaceCodes_of_isNewline {character : Char} (ends : isNewline character = true) :
    character.toNat ∈ spaceCodes := by
  simp only [isNewline, Bool.or_eq_true, beq_iff_eq] at ends
  rcases ends with ((rfl | rfl) | rfl) | rfl <;> decide

/-- No name starts with a space or a line terminator. -/
theorem isNameStart_space {character : Char} (isSpace : character.toNat ∈ spaceCodes) :
    isNameStart character = false := by
  have all : ∀ code ∈ spaceCodes, isNameStart (Char.ofNat code) = false := by decide +kernel
  have holds := all _ isSpace
  rwa [Char.ofNat_toNat] at holds

namespace Place

theorem advance_append (offset : Nat) (text more : Text) :
    (Place.mk offset (text ++ more)).advance text.length = ⟨offset + Text.size text, more⟩ := by
  simp [advance]

end Place

namespace Trivia

/-- Nothing is skipped in front of a token. -/
theorem skip_self {offset : Nat} {first : Char} {rest : Text} (inLine : isNewline first = false)
    (notBlank : isBlank first = false)
    (noComment : first ≠ '/' ∨ rest.head? ≠ some '/' ∧ rest.head? ≠ some '*') :
    skip ⟨offset, first :: rest⟩ = .ok (⟨offset, first :: rest⟩, .plain) := by
  unfold skip
  rw [skipFrom]
  · simp [inLine, notBlank]
  · rintro more rfl rfl
    simp at noComment
  · rintro more rfl rfl
    simp at noComment

theorem skip_space (offset : Nat) (rest : Text) :
    skip ⟨offset, ' ' :: rest⟩ = skip ⟨offset + 1, rest⟩ := by
  unfold skip
  rw [skipFrom]
  · rfl
  · rintro more impossible
    cases impossible
  · rintro more impossible
    cases impossible

end Trivia

namespace Token

/-- A token with nothing skipped in front of it. -/
def direct (kind : TokenKind) (text : Text) (offset : Nat) (more : Text) : Token :=
  ⟨kind, text, ⟨offset, text ++ more⟩, ⟨offset + Text.size text, more⟩, .plain⟩

theorem scan_space (dialect : Dialect) (offset : Nat) (rest : Text) (patternAllowed : Bool) :
    scan dialect ⟨offset, ' ' :: rest⟩ patternAllowed =
      scan dialect ⟨offset + 1, rest⟩ patternAllowed := by
  unfold scan
  rw [Trivia.skip_space]

theorem scan_direct {dialect : Dialect} {offset : Nat} {text more : Text} {patternAllowed : Bool}
    {kind : TokenKind} {first : Char} {rest : Text} (starts : text = first :: rest)
    (skipped : Trivia.skip ⟨offset, text ++ more⟩ = .ok (⟨offset, text ++ more⟩, .plain))
    (lexed : lexeme dialect patternAllowed ⟨offset, text ++ more⟩ first =
      .ok (kind, ⟨offset + Text.size text, more⟩)) :
    scan dialect ⟨offset, text ++ more⟩ patternAllowed = .ok (direct kind text offset more) := by
  have reaches : (Place.mk offset (text ++ more)).Reaches text ⟨offset + Text.size text, more⟩ :=
    ⟨rfl, rfl⟩
  unfold scan
  rw [skipped]
  simp only [bind, Except.bind]
  split
  case h_1 empty =>
    rw [starts] at empty
    cases empty
  case h_2 found behind same =>
    rw [starts, List.cons_append] at same
    cases same
    rw [lexed]
    simp only [reaches.upTo_eq]
    rfl

/-- A word is scanned as a whole where no part of a name follows it. -/
theorem scan_word {dialect : Dialect} {offset : Nat} {word more : Text} {patternAllowed : Bool}
    (starts : word.head?.any isNameStart = true) (parts : word.all isNamePart = true)
    (ends : more.head?.any isNamePart = false) :
    scan dialect ⟨offset, word ++ more⟩ patternAllowed =
      .ok (direct (wordKind dialect word) word offset more) := by
  cases word with
  | nil => cases starts
  | cons first rest =>
      have isStart : isNameStart first = true := by simpa using starts
      have visible (isSpace : first.toNat ∈ spaceCodes) : False := by
        rw [isNameStart_space isSpace] at isStart
        cases isStart
      have notSlash : first ≠ '/' := by
        rintro rfl
        cases isStart
      have inLine : isNewline first = false :=
        Bool.eq_false_iff.mpr fun newline => visible (spaceCodes_of_isNewline newline)
      have notBlank : isBlank first = false :=
        Bool.eq_false_iff.mpr fun blank => visible (spaceCodes_of_isBlank blank)
      refine scan_direct rfl (Trivia.skip_self inLine notBlank (.inl notSlash)) ?_
      have all : ∀ character ∈ first :: rest, isNamePart character = true := by simpa using parts
      obtain ⟨taken, dropped⟩ := Text.run_append all ends
      unfold lexeme
      rw [if_pos isStart]
      simp only [Place.skipWhile, taken, dropped]

/-- Nothing is left of a text, or it goes on with a space or a semicolon. -/
def Parted (more : Text) : Prop :=
  more = [] ∨ (∃ rest, more = ' ' :: rest) ∨ ∃ rest, more = ';' :: rest

theorem Parted.ends {more : Text} (parted : Parted more) :
    more.head?.any isNamePart = false ∧ more.head?.any Char.isDigit = false := by
  obtain rfl | ⟨rest, rfl⟩ | ⟨rest, rfl⟩ := parted <;> exact ⟨rfl, rfl⟩

/-- No sign is the beginning of a longer one where a space or a semicolon
follows. -/
theorem Parted.longestAt? {more : Text} (parted : Parted more) (sign : Punctuator) :
    Punctuator.longestAt? (sign.chars ++ more) = some sign := by
  obtain rfl | ⟨rest, rfl⟩ | ⟨rest, rfl⟩ := parted <;> cases sign <;> rfl

/-- A sign is scanned as a whole where a space or a semicolon follows, unless
it is a slash that opens a pattern. -/
theorem scan_sign {dialect : Dialect} {offset : Nat} {sign : Punctuator} {more : Text}
    {patternAllowed : Bool} (divides : patternAllowed = true → sign.chars.head? ≠ some '/')
    (parted : Parted more) :
    scan dialect ⟨offset, sign.chars ++ more⟩ patternAllowed =
      .ok (direct (.punctuator sign) sign.chars offset more) := by
  have advanced := Place.advance_append offset sign.chars more
  obtain ⟨first, rest, starts, other, noQuote⟩ : ∃ first rest, sign.chars = first :: rest ∧
      isNameStart first = false ∧ ¬(first = '"' ∨ first = '\x27') := by
    cases sign <;> exact ⟨_, _, rfl, rfl, by decide⟩
  have skipped : Trivia.skip ⟨offset, sign.chars ++ more⟩ =
      .ok (⟨offset, sign.chars ++ more⟩, .plain) := by
    obtain rfl | ⟨rest, rfl⟩ | ⟨rest, rfl⟩ := parted <;>
      cases sign <;> exact Trivia.skip_self rfl rfl (by simp)
  have plain : startsNumber ⟨offset, sign.chars ++ more⟩ first = false := by
    have behind := parted.ends.2
    cases sign <;> cases starts <;>
      first
        | rfl
        | simpa [startsNumber, Place.ahead, Punctuator.chars, List.head?_eq_getElem?] using behind
  have noPattern : ¬(first = '/' ∧ patternAllowed = true) := by
    rintro ⟨rfl, allowed⟩
    exact divides allowed (by rw [starts]; rfl)
  refine scan_direct starts skipped ?_
  unfold lexeme
  rw [if_neg (by simp [other]), if_neg (by simp [plain]), if_neg noQuote, if_neg noPattern]
  simp only [parted.longestAt? sign, advanced]

end Token

/-! ## Words and signs one after another -/

def Text.isWord (text : Text) : Bool :=
  text.head?.any isNameStart && text.all isNamePart

/-- Whether a text is scanned as a word or a sign, and not as a pattern. -/
def isScannable (patternAllowed : Bool) (text : Text) : Bool :=
  text.isWord || Punctuator.longestFirst.any fun sign =>
    sign.chars == text && !(patternAllowed && text.head? == some '/')

namespace Token

/-- What a word or sign is scanned as. -/
def kindOf (dialect : Dialect) (text : Text) : TokenKind :=
  if Text.isWord text then
    wordKind dialect text
  else
    match Punctuator.longestAt? text with
    | some sign => .punctuator sign
    | none => .endOfText

@[simp]
theorem kindOf_sign (dialect : Dialect) (sign : Punctuator) :
    kindOf dialect sign.chars = .punctuator sign := by
  cases sign <;> rfl

theorem scan_scannable {dialect : Dialect} {offset : Nat} {text more : Text}
    {patternAllowed : Bool} (scannable : isScannable patternAllowed text = true)
    (parted : Parted more) :
    scan dialect ⟨offset, text ++ more⟩ patternAllowed =
      .ok (direct (kindOf dialect text) text offset more) := by
  rcases Bool.or_eq_true_iff.mp scannable with word | sign
  · obtain ⟨starts, parts⟩ := Bool.and_eq_true_iff.mp word
    rw [scan_word starts parts parted.ends.1, kindOf, if_pos word]
  · obtain ⟨sign, -, same⟩ := List.any_eq_true.mp sign
    obtain ⟨spelled, divides⟩ := Bool.and_eq_true_iff.mp same
    obtain rfl : sign.chars = text := by simpa using spelled
    rw [scan_sign (by simpa [imp_iff_not_or] using divides) parted, kindOf_sign]

end Token

/-- Whether words and signs are scanned one after another.  Each decides
whether a slash behind it opens a pattern. -/
def isPaced (dialect : Dialect) : Bool → List Text → Bool
  | _, [] => true
  | patternAllowed, text :: rest =>
      isScannable patternAllowed text &&
        isPaced dialect (Token.kindOf dialect text).allowsPatternAfter rest

/-- Words with single spaces in front of them, and what follows them. -/
def spacedTail (more : Text) : List Text → Text
  | [] => more
  | word :: rest => ' ' :: (word ++ spacedTail more rest)

theorem spaced_cons (more first : Text) (rest : List Text) :
    [' '].intercalate (first :: rest) ++ more = first ++ spacedTail more rest := by
  induction rest generalizing first with
  | nil => simp [spacedTail]
  | cons second rest ih =>
      rw [List.intercalate_cons_cons, List.append_assoc, List.append_assoc, ih]
      rfl

theorem spacedTail_parted {more : Text} (parted : Token.Parted more) (words : List Text) :
    Token.Parted (spacedTail more words) := by
  cases words with
  | nil => exact parted
  | cons word rest => exact .inr (.inl ⟨_, rfl⟩)

end ScriptTree
