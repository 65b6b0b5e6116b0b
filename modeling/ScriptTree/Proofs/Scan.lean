import ScriptTree.Proofs.Lexeme
import ScriptTree.Proofs.Trivia

/-!
# What scanning consumes

Scanning moves over trivia and then over the characters of one token.  Both
are accounted for here: no character is passed over in any other way, and a
token with a fixed spelling covers exactly that spelling.
-/

namespace ScriptTree

/-! ## Trivia -/

namespace Trivia

/-- Texts made of blanks, line terminators and complete comments. -/
inductive IsTrivia : Text → Prop where
  | none : IsTrivia []
  | space {character : Char} {rest : Text}
      (blank : isNewline character = true ∨ isBlank character = true)
      (later : IsTrivia rest) : IsTrivia (character :: rest)
  | lineComment {body rest : Text} (inLine : ∀ character ∈ body, isNewline character = false)
      (later : IsTrivia rest) : IsTrivia ('/' :: '/' :: (body ++ rest))
  | blockComment {body rest : Text} (open_ : ¬['*', '/'] <:+: body)
      (later : IsTrivia rest) : IsTrivia ('/' :: '*' :: (body ++ '*' :: '/' :: rest))

theorem Fills.isTrivia {rest skipped : Text} {marks : List Mark}
    (fills : Fills rest marks skipped) : IsTrivia skipped := by
  induction fills with
  | none => exact .none
  | item isItem complete further ih =>
      cases isItem with
      | blank isBlank => exact .space (.inr isBlank) ih
      | newline ends => exact .space (.inl ends) ih
      | lineComment inLine => exact .lineComment inLine ih
      | blockComment open_ => simpa using IsTrivia.blockComment open_ ih

/-- What is skipped before a token is trivia. -/
theorem skip_reaches {place start : Place} {gap : Gap} (run : skip place = .ok (start, gap)) :
    ∃ skipped, place.Reaches skipped start ∧ IsTrivia skipped := by
  obtain ⟨marks, skipped, reaches, fills, -⟩ := skip_skipped run
  exact ⟨skipped, reaches, fills.isTrivia⟩

end Trivia

/-! ## Tokens -/

namespace Punctuator

theorem longestAt?_prefix {text : Text} {sign : Punctuator}
    (found : longestAt? text = some sign) : ∃ rest, text = sign.chars ++ rest := by
  have starts := List.find?_some found
  obtain ⟨rest, same⟩ := List.isPrefixOf_iff_prefix.mp starts
  exact ⟨rest, same.symm⟩

theorem chars_ne_nil (sign : Punctuator) : sign.chars ≠ [] := by
  cases sign <;> decide

end Punctuator

namespace Token

theorem wordKind_keyword {dialect : Dialect} {word : Text} {keyword : Keyword}
    (found : wordKind dialect word = .keyword keyword) : word = keyword.chars := by
  unfold wordKind at found
  split at found
  · rename_i reserved
    cases found
    unfold Recognizer.dialectWord? at reserved
    split at reserved
    · rename_i isExtends
      exact isExtends.1
    · cases reserved
  · split at found
    · rename_i keyword isReserved
      cases found
      have same := List.find?_some isReserved
      simpa using (beq_iff_eq.mp same).symm
    · cases found

theorem wordKind_cases (dialect : Dialect) (word : Text) :
    wordKind dialect word = .identifier ∨ ∃ keyword, wordKind dialect word = .keyword keyword := by
  unfold wordKind
  split
  · exact .inr ⟨_, rfl⟩
  · split
    · exact .inr ⟨_, rfl⟩
    · exact .inl rfl

def SpelledAs (kind : TokenKind) (text : Text) : Prop :=
  match kind with
  | .keyword word => text = word.chars
  | .punctuator sign => text = sign.chars
  | _ => True

/-- Every lexeme covers at least one character, and a spelling if its kind has
a fixed one. -/
structure Lexed (start stop : Place) (kind : TokenKind) (text : Text) : Prop where
  covers : start.Reaches text stop
  nonempty : text ≠ []
  spelled : SpelledAs kind text
  notEnd : kind ≠ .endOfText

/-- The ways in which a lexeme is read, with the tests that lead to each. -/
inductive IsLexeme (dialect : Dialect) (patternAllowed : Bool) (start : Place) (first : Char) :
    TokenKind → Place → Prop where
  | word (isName : isNameStart first = true) :
      IsLexeme dialect patternAllowed start first
        (wordKind dialect (start.rest.takeWhile isNamePart)) (start.skipWhile isNamePart)
  | number {stop : Place} (notName : isNameStart first = false)
      (isNumber : startsNumber start first = true) (run : Lexeme.number start = .ok stop) :
      IsLexeme dialect patternAllowed start first .number stop
  | string {stop : Place} (notName : isNameStart first = false)
      (notNumber : startsNumber start first = false) (isQuote : first = '"' ∨ first = '\x27')
      (run : Lexeme.string start first = .ok stop) :
      IsLexeme dialect patternAllowed start first .string stop
  | pattern {stop : Place} (notName : isNameStart first = false)
      (notNumber : startsNumber start first = false) (isSlash : first = '/')
      (allowed : patternAllowed = true) (run : Lexeme.pattern start = .ok stop) :
      IsLexeme dialect patternAllowed start first .pattern stop
  | sign {sign : Punctuator} (notName : isNameStart first = false)
      (notNumber : startsNumber start first = false) (notQuote : ¬(first = '"' ∨ first = '\x27'))
      (notSlash : ¬(first = '/' ∧ patternAllowed = true))
      (found : Punctuator.longestAt? start.rest = some sign) :
      IsLexeme dialect patternAllowed start first (.punctuator sign)
        (start.advance sign.chars.length)

private theorem map_ok {kind found : TokenKind} {stop : Place}
    {result : Except SyntaxError Place} (run : result.map (found, ·) = .ok (kind, stop)) :
    result = .ok stop ∧ found = kind := by
  cases result with
  | error fault => cases run
  | ok place =>
      cases run
      exact ⟨rfl, rfl⟩

theorem lexeme_isLexeme {dialect : Dialect} {patternAllowed : Bool} {start stop : Place}
    {first : Char} {kind : TokenKind}
    (run : lexeme dialect patternAllowed start first = .ok (kind, stop)) :
    IsLexeme dialect patternAllowed start first kind stop := by
  unfold lexeme at run
  split at run
  · rename_i isName
    cases run
    exact .word isName
  rename_i notName
  have notName := Bool.eq_false_iff.mpr notName
  split at run
  · rename_i isNumber
    obtain ⟨read, rfl⟩ := map_ok run
    exact .number notName isNumber read
  rename_i notNumber
  have notNumber := Bool.eq_false_iff.mpr notNumber
  split at run
  · rename_i isQuote
    obtain ⟨read, rfl⟩ := map_ok run
    exact .string notName notNumber isQuote read
  rename_i notQuote
  split at run
  · rename_i isSlash
    obtain ⟨read, rfl⟩ := map_ok run
    exact .pattern notName notNumber isSlash.1 isSlash.2 read
  rename_i notSlash
  split at run
  · rename_i sign found
    cases run
    exact .sign notName notNumber notQuote notSlash found
  · cases run

/-- How the kind of a lexeme tells what has been read. -/
def ReadAs (start : Place) (first : Char) (kind : TokenKind) (stop : Place) : Prop :=
  match kind with
  | .number => startsNumber start first = true ∧ Lexeme.number start = .ok stop
  | .string => (first = '"' ∨ first = '\x27') ∧ Lexeme.string start first = .ok stop
  | .pattern => Lexeme.pattern start = .ok stop
  | .punctuator sign => Punctuator.longestAt? start.rest = some sign
  | _ => True

theorem IsLexeme.readAs {dialect : Dialect} {patternAllowed : Bool} {start stop : Place}
    {first : Char} {kind : TokenKind}
    (isLexeme : IsLexeme dialect patternAllowed start first kind stop) :
    ReadAs start first kind stop := by
  cases isLexeme with
  | word isName =>
      rcases wordKind_cases dialect (start.rest.takeWhile isNamePart) with
        isIdentifier | ⟨keyword, isKeyword⟩
      · rw [isIdentifier]
        trivial
      · rw [isKeyword]
        trivial
  | number notName isNumber run => exact ⟨isNumber, run⟩
  | string notName notNumber isQuote run => exact ⟨isQuote, run⟩
  | pattern notName notNumber isSlash allowed run => exact run
  | sign notName notNumber notQuote notSlash found => exact found

private theorem word_lexed {dialect : Dialect} {start : Place} {first : Char} {rest : Text}
    (starts : start.rest = first :: rest) (isName : isNameStart first = true) :
    Lexed start (start.skipWhile isNamePart)
      (wordKind dialect (start.rest.takeWhile isNamePart)) (start.rest.takeWhile isNamePart) := by
  have part : isNamePart first = true := by
    simp only [isNameStart, isNamePart, Bool.or_eq_true] at isName ⊢
    tauto
  refine ⟨Place.reaches_skipWhile _ _, by simp [starts, part], ?_, ?_⟩
  · obtain isIdentifier | ⟨keyword, isKeyword⟩ :=
      wordKind_cases dialect (start.rest.takeWhile isNamePart)
    · rw [isIdentifier]
      trivial
    · rw [isKeyword]
      exact wordKind_keyword isKeyword
  · obtain isIdentifier | ⟨keyword, isKeyword⟩ :=
      wordKind_cases dialect (start.rest.takeWhile isNamePart)
    · simp [isIdentifier]
    · simp [isKeyword]

private theorem sign_lexed {start : Place} {sign : Punctuator}
    (found : Punctuator.longestAt? start.rest = some sign) :
    Lexed start (start.advance sign.chars.length) (.punctuator sign) sign.chars := by
  obtain ⟨rest, same⟩ := Punctuator.longestAt?_prefix found
  have covers := Place.reaches_advance start sign.chars.length
  rw [same, List.take_left] at covers
  exact ⟨covers, sign.chars_ne_nil, rfl, by simp⟩

theorem lexeme_lexed {dialect : Dialect} {patternAllowed : Bool} {start stop : Place}
    {first : Char} {rest : Text} {kind : TokenKind} (starts : start.rest = first :: rest)
    (run : lexeme dialect patternAllowed start first = .ok (kind, stop)) :
    ∃ text, Lexed start stop kind text := by
  cases lexeme_isLexeme run with
  | word isName => exact ⟨_, word_lexed starts isName⟩
  | number notName isNumber run =>
      obtain ⟨text, reaches, form⟩ := Lexeme.number_isNumber starts isNumber run
      exact ⟨text, reaches, form.ne_nil, trivial, by simp⟩
  | string notName notNumber isQuote run =>
      obtain ⟨body, -, reaches⟩ := Lexeme.string_isQuoted starts run
      exact ⟨_, reaches, by simp, trivial, by simp⟩
  | pattern notName notNumber isSlash allowed run =>
      obtain ⟨body, flags, -, -, reaches⟩ := Lexeme.pattern_isPattern starts run
      exact ⟨_, reaches, by simp, trivial, by simp⟩
  | sign notName notNumber notQuote notSlash found => exact ⟨_, sign_lexed found⟩

structure Scanned (place : Place) (token : Token) : Prop where
  skipped : Trivia.skip place = .ok (token.start, token.gap)
  covers : token.start.Reaches token.text token.stop
  nonempty : token.isEnd = false → token.text ≠ []
  ends : token.isEnd = true → token.start.rest = []
  spelled : SpelledAs token.kind token.text

theorem scan_scanned {dialect : Dialect} {place : Place} {patternAllowed : Bool} {token : Token}
    (run : scan dialect place patternAllowed = .ok token) : Scanned place token := by
  unfold scan at run
  cases skipped : Trivia.skip place with
  | error fault => simp [skipped, bind, Except.bind] at run
  | ok found =>
      obtain ⟨start, gap⟩ := found
      simp only [skipped, bind, Except.bind] at run
      split at run
      · rename_i ended
        cases run
        exact ⟨skipped, .refl _, nofun, fun _ => ended, trivial⟩
      · rename_i first rest starts
        cases lexed : lexeme dialect patternAllowed start first with
        | error fault => simp [lexed] at run
        | ok pair =>
            obtain ⟨kind, stop⟩ := pair
            simp only [lexed] at run
            cases run
            obtain ⟨text, covers, nonempty, spelled, notEnd⟩ := lexeme_lexed starts lexed
            refine ⟨skipped, ?_, ?_, ?_, ?_⟩
            · rw [covers.upTo_eq]
              exact covers
            · simpa [covers.upTo_eq] using fun _ => nonempty
            · simp [isEnd, notEnd]
            · rw [covers.upTo_eq]
              exact spelled

/-- A token that is not the end is read as a lexeme. -/
theorem scan_lexeme {dialect : Dialect} {place : Place} {patternAllowed : Bool} {token : Token}
    (run : scan dialect place patternAllowed = .ok token) (more : token.isEnd = false) :
    ∃ first rest, token.start.rest = first :: rest ∧
      lexeme dialect patternAllowed token.start first = .ok (token.kind, token.stop) := by
  have scanned := scan_scanned run
  unfold scan at run
  rw [scanned.skipped] at run
  simp only [bind, Except.bind] at run
  split at run
  · have ended : token.kind = .endOfText := by rw [← Except.ok.inj run]
    simp [isEnd, ended] at more
  rename_i first rest starts
  cases lexed : lexeme dialect patternAllowed token.start first with
  | error fault => simp [lexed] at run
  | ok pair =>
      obtain ⟨kind, stop⟩ := pair
      rw [lexed] at run
      have same := Except.ok.inj run
      refine ⟨first, rest, starts, ?_⟩
      rw [lexed, ← same]

end Token

end ScriptTree
