import ScriptTree.Proofs.Spaced

/-!
# Tokens are segments of the text

A token stands behind all trivia there is and covers a piece of the text that
is scanned as the same token when it stands alone.  Scanning on from token to
token comes to an end.
-/

namespace ScriptTree

namespace Token

variable {dialect : Dialect} {patternAllowed : Bool} {start stop : Place} {text : Text}

/-! ## A token that stands alone -/

/-- Where no number starts, none starts when nothing stands behind the text. -/
theorem notNumber_left {first : Char} {more : Text} (starts : start.rest = text ++ more)
    (notNumber : startsNumber start first = false) (offset : Nat) :
    ¬startsNumber ⟨offset, text⟩ first = true := by
  unfold startsNumber Place.ahead at *
  rw [starts] at notNumber
  rcases text with _ | ⟨_, _ | ⟨second, rest⟩⟩
  · simp_all
  · simp_all
  · simpa using notNumber

/-- A lexeme is read again, and as a whole, where nothing stands behind it. -/
theorem lexeme_alone {first : Char} {rest : Text} {kind : TokenKind}
    (starts : text = first :: rest)
    (run : lexeme dialect patternAllowed start first = .ok (kind, stop))
    (covers : start.Reaches text stop) (offset : Nat) :
    lexeme dialect patternAllowed ⟨offset, text⟩ first =
      .ok (kind, ⟨offset + Text.size text, []⟩) := by
  have whole : start.rest = first :: (rest ++ stop.rest) := by
    rw [covers.rest, starts]
    rfl
  unfold lexeme
  cases lexeme_isLexeme run with
  | word isName =>
      have same := covers.text_unique (Place.reaches_skipWhile start isNamePart)
      have parts : ∀ character ∈ text, isNamePart character = true := by
        rw [same]
        exact fun _ isIn => List.mem_takeWhile_imp isIn
      rw [if_pos isName, ← same]
      simp only [Place.skipWhile_all isNamePart parts, List.takeWhile_eq_self_iff.mpr parts]
  | number notName startsHere read =>
      obtain ⟨same, reaches, isNumber⟩ := Lexeme.number_isNumber whole startsHere read
      rw [← covers.text_unique reaches, starts] at isNumber
      rw [starts, if_neg (by simp [notName]), if_pos (isNumber.startsNumber offset),
        isNumber.number_eq]
      rfl
  | string notName notNumber isQuote read =>
      obtain ⟨body, isQuoted, reaches⟩ := Lexeme.string_isQuoted whole read
      obtain rfl := covers.text_unique reaches
      rw [if_neg (by simp [notName]), if_neg (notNumber_left covers.rest notNumber offset),
        if_pos isQuote, isQuoted.string_eq isQuote]
      rfl
  | pattern notName notNumber isSlash allowed read =>
      obtain ⟨body, flags, isPattern, isFlags, reaches⟩ := Lexeme.pattern_isPattern whole read
      obtain rfl := covers.text_unique reaches
      subst isSlash
      rw [if_neg (by simp [notName]), if_neg (notNumber_left covers.rest notNumber offset),
        if_neg (by decide), if_pos ⟨rfl, allowed⟩, isPattern.pattern_eq isFlags]
      rfl
  | @sign sign notName notNumber notQuote notSlash found =>
      obtain ⟨more, same⟩ := Punctuator.longestAt?_prefix found
      have reaches := Place.reaches_advance start sign.chars.length
      rw [same, List.take_left] at reaches
      obtain rfl := covers.text_unique reaches
      have alone := Parted.longestAt? (.inl rfl) sign
      have advanced := Place.advance_append offset sign.chars []
      rw [List.append_nil] at alone advanced
      rw [if_neg (by simp [notName]), if_neg (notNumber_left covers.rest notNumber offset),
        if_neg notQuote, if_neg notSlash]
      simp only [alone, advanced]

/-- A token is scanned again from its own text. -/
theorem scan_alone {place : Place} {token : Token}
    (run : scan dialect place patternAllowed = .ok token) :
    scan dialect (Place.first token.text) patternAllowed =
      .ok (direct token.kind token.text 0 []) := by
  have scanned := scan_scanned run
  obtain ⟨marks, skipped, toStart, fills, same, significant⟩ := Trivia.skip_skipped scanned.skipped
  cases isEnd : token.isEnd with
  | true =>
      have ended := scanned.ends isEnd
      rw [scanned.covers.rest] at ended
      rw [(List.append_eq_nil_iff.mp ended).1, beq_iff_eq.mp isEnd]
      rfl
  | false =>
      obtain ⟨first, rest, starts, lexed⟩ := scan_lexeme run isEnd
      obtain ⟨head, others, spelled⟩ := List.exists_cons_of_ne_nil (scanned.nonempty isEnd)
      have behind := scanned.covers.rest
      rw [spelled, starts] at behind
      obtain rfl := (List.cons.inj behind).1
      rw [scanned.covers.rest] at significant
      obtain ⟨inLine, notBlank, noComment⟩ := significant.left first others spelled
      have alone := lexeme_alone spelled lexed scanned.covers 0
      have direct :=
        @scan_direct dialect 0 token.text [] patternAllowed token.kind first others spelled
      rw [List.append_nil, Nat.zero_add] at *
      refine direct ?_ alone
      rw [spelled]
      exact Trivia.skip_self inLine notBlank (not_or_of_imp noComment)

/-! ## Segments -/

/-- How a token that is scanned from a byte offset lies in the text. -/
structure Segment (dialect : Dialect) (patternAllowed : Bool) (source : Text) (offset : Nat)
    (token : Token) : Prop where
  ordered : offset ≤ token.span.start ∧ token.span.start ≤ token.span.stop ∧
    token.span.stop ≤ Text.size source
  /-- All trivia there is has been skipped. -/
  behind : ∃ marks skipped, source.slice? offset token.span.start = some skipped ∧
    source.drop? token.span.start = some token.start.rest ∧
    Trivia.Fills token.start.rest marks skipped ∧ Trivia.Clear token.start.rest
  covers : source.slice? token.span.start token.span.stop = some token.text
  ends : token.kind = .endOfText ↔ token.span.start = Text.size source
  advances : token.kind ≠ .endOfText → token.span.start < token.span.stop
  /-- No sign that starts here is longer than the one that is scanned. -/
  longest : ∀ sign : Punctuator, token.kind = .punctuator sign → sign ∈ Punctuator.longestFirst ∧
    token.text = sign.chars ∧
      ∀ other : Punctuator, other.chars <+: token.start.rest →
        other.chars.length ≤ sign.chars.length
  alone : ∃ again, scan dialect (Place.first token.text) patternAllowed = .ok again ∧
    again.kind = token.kind ∧ again.span = ⟨0, Text.size token.text⟩

/-- The sign of a token is the one that is found first. -/
theorem scan_sign_longestAt? {place : Place} {token : Token} {sign : Punctuator}
    (run : scan dialect place patternAllowed = .ok token) (isSign : token.kind = .punctuator sign) :
    Punctuator.longestAt? token.start.rest = some sign := by
  obtain ⟨first, rest, starts, lexed⟩ := scan_lexeme run (by simp [isEnd, isSign])
  have read := (lexeme_isLexeme lexed).readAs
  rwa [isSign] at read

end Token

/-- The sign that is found first is the longest. -/
theorem Punctuator.longestAt?_longest {text : Text} {sign other : Punctuator}
    (found : longestAt? text = some sign) (starts : other.chars <+: text) :
    other.chars.length ≤ sign.chars.length := by
  obtain ⟨-, longer, shorter, parts, earlier⟩ := List.find?_eq_some_iff_append.mp found
  have ordered : longestFirst.Pairwise fun first second =>
      second.chars.length ≤ first.chars.length := by decide
  have isOther : other ∈ longestFirst := by cases other <;> decide
  rw [parts] at ordered isOther
  rcases List.mem_append.mp isOther with isLonger | isLater
  · have notHere := earlier other isLonger
    simp [List.isPrefixOf_iff_prefix.mpr starts] at notHere
  · rcases List.mem_cons.mp isLater with rfl | isShorter
    · exact Nat.le_refl _
    · exact (List.pairwise_cons.mp (List.pairwise_append.mp ordered).2.1).1 other isShorter

namespace Token

variable {dialect : Dialect} {patternAllowed : Bool}

theorem scan_segment {source : Text} {place : Place} {token : Token} (on : Place.On source place)
    (run : scan dialect place patternAllowed = .ok token) :
    Segment dialect patternAllowed source place.offset token := by
  have scanned := scan_scanned run
  obtain ⟨marks, skipped, toStart, fills, same, significant⟩ := Trivia.skip_skipped scanned.skipped
  have onStart := on.after toStart
  have onStop := onStart.after scanned.covers
  have notEnd : token.kind ≠ .endOfText → token.isEnd = false := by simp [isEnd]
  refine ⟨⟨toStart.offset_le, scanned.covers.offset_le, ?_⟩, ?_, onStart.slice?_eq scanned.covers,
    ⟨?_, ?_⟩, ?_, ?_, ?_⟩
  · have := onStop.offset_add
    simp only [span]
    omega
  · exact ⟨marks, skipped, on.slice?_eq toStart, onStart.drop?_eq, fills, significant.clear⟩
  · intro ends
    exact onStart.offset_of_end (scanned.ends (by simp [isEnd, ends]))
  · intro ends
    by_contra more
    have := scanned.covers.offset_lt (scanned.nonempty (notEnd more))
    have := onStop.offset_add
    simp only [span] at ends
    omega
  · exact fun more => scanned.covers.offset_lt (scanned.nonempty (notEnd more))
  · intro sign isSign
    have found := scan_sign_longestAt? run isSign
    have spelled := scanned.spelled
    rw [isSign] at spelled
    exact ⟨List.mem_of_find?_eq_some found, spelled,
      fun other starts => Punctuator.longestAt?_longest found starts⟩
  · exact ⟨_, scan_alone run, rfl, by simp [direct, span]⟩

/-! ## Scanning on -/

/-- The token behind `count` others, each of which starts where the one before
it stops.  The flags tell where a slash opens a pattern. -/
def scanAfter (dialect : Dialect) (flags : Nat → Bool) (place : Place) :
    Nat → Except SyntaxError Token
  | 0 => scan dialect place (flags 0)
  | count + 1 => do
      let token ← scanAfter dialect flags place count
      scan dialect token.stop (flags (count + 1))

/-- A token that is not the end leaves less of the text. -/
theorem scan_shorter {place : Place} {token : Token}
    (run : scan dialect place patternAllowed = .ok token) (more : token.isEnd = false) :
    token.stop.rest.length < place.rest.length := by
  have scanned := scan_scanned run
  obtain ⟨skipped, toStart, -⟩ := Trivia.skip_reaches scanned.skipped
  have nonempty := List.length_pos_iff.mpr (scanned.nonempty more)
  rw [toStart.rest, scanned.covers.rest, List.length_append, List.length_append]
  omega

theorem scan_stop_of_isEnd {place : Place} {token : Token}
    (run : scan dialect place patternAllowed = .ok token) (isEnd : token.isEnd = true) :
    token.stop.rest = [] := by
  have scanned := scan_scanned run
  have ended := scanned.ends isEnd
  rw [scanned.covers.rest] at ended
  exact (List.append_eq_nil_iff.mp ended).2

/-- With every further token less of the text is left. -/
theorem scanAfter_shorter {flags : Nat → Bool} {place : Place} {count : Nat} {token : Token}
    (run : scanAfter dialect flags place count = .ok token) :
    token.isEnd = true ∧ token.stop.rest = [] ∨
      token.stop.rest.length + count < place.rest.length := by
  induction count generalizing token with
  | zero =>
      cases isEnd : token.isEnd with
      | true => exact .inl ⟨rfl, scan_stop_of_isEnd run isEnd⟩
      | false => exact .inr (scan_shorter run isEnd)
  | succ count ih =>
      cases earlier : scanAfter dialect flags place count with
      | error fault => simp [scanAfter, earlier, bind, Except.bind] at run
      | ok before =>
          simp only [scanAfter, earlier, bind, Except.bind] at run
          cases isEnd : token.isEnd with
          | true => exact .inl ⟨rfl, scan_stop_of_isEnd run isEnd⟩
          | false =>
              have shorter := scan_shorter run isEnd
              rcases ih earlier with ⟨-, ended⟩ | less
              · simp [ended] at shorter
              · exact .inr (by omega)

/-- All tokens of a text are scanned up to its end or the first error. -/
theorem scanAll_ends (dialect : Dialect) (source : Text) :
    ∃ (tokens : List Token) (last : Except SyntaxError Token),
      scanAll dialect source = tokens.map .ok ++ [last] ∧
      (∀ token ∈ tokens, token.isEnd = false) ∧
      ∀ token, last = .ok token → token.isEnd = true := by
  suffices ∀ fuel place patternAllowed, place.rest.length < fuel →
      ∃ (tokens : List Token) (last : Except SyntaxError Token),
        scanAll.go dialect fuel place patternAllowed =
          tokens.map .ok ++ [last] ∧ (∀ token ∈ tokens, token.isEnd = false) ∧
          ∀ token, last = .ok token → token.isEnd = true from
    this _ _ _ (Nat.lt_succ_self _)
  intro fuel
  induction fuel with
  | zero => exact fun _ _ impossible => absurd impossible (Nat.not_lt_zero _)
  | succ fuel ih =>
      intro place patternAllowed enough
      rw [scanAll.go]
      cases run : scan dialect place patternAllowed with
      | error fault => exact ⟨[], .error fault, rfl, by simp, nofun⟩
      | ok token =>
          cases isEnd : token.isEnd with
          | true => exact ⟨[], .ok token, by simp [isEnd], by simp, by simp [isEnd]⟩
          | false =>
              have shorter := scan_shorter run isEnd
              obtain ⟨tokens, last, same, notEnd, ends⟩ :=
                ih token.stop token.kind.allowsPatternAfter (by omega)
              exact ⟨token :: tokens, last, by simp [isEnd, same], by simpa [isEnd] using notEnd,
                ends⟩

/-- What is scanned from a character boundary is a segment of the text, and
scanning on from token to token comes to an end. -/
theorem scan_segments (dialect : Dialect) (before after : Text) :
    (∀ patternAllowed token,
      scan dialect (Place.ofOffset (before ++ after) (Text.size before)) patternAllowed =
          .ok token →
        Segment dialect patternAllowed (before ++ after) (Text.size before) token) ∧
    ∀ flags, ∃ count ≤ after.length, ∀ token,
      scanAfter dialect flags (Place.ofOffset (before ++ after) (Text.size before)) count =
        .ok token → token.isEnd = true := by
  rw [Place.ofOffset_append]
  refine ⟨fun _ _ run => scan_segment (Place.on_behind before after) run,
    fun flags => ⟨after.length, Nat.le_refl _, fun token run => ?_⟩⟩
  rcases scanAfter_shorter run with ⟨isEnd, -⟩ | less
  · exact isEnd
  · exact absurd less (by simp)

/-- A comment and a space stand before the longest sign. -/
theorem scan_segments_comment :
    ∃ token, scan .script (Place.ofOffset ("é ".toList ++ "/*b*/ >>>= 1".toList) 3) true =
        .ok token ∧ token.kind = .punctuator .shiftRightUnsignedAssign ∧
      Segment .script true ("é ".toList ++ "/*b*/ >>>= 1".toList) 3 token := by
  have run : ∃ token, scan .script
      (Place.ofOffset ("é ".toList ++ "/*b*/ >>>= 1".toList) 3) true = .ok token ∧
        token.kind = .punctuator .shiftRightUnsignedAssign :=
    ⟨_, rfl, rfl⟩
  obtain ⟨token, run, isSign⟩ := run
  exact ⟨token, run, isSign, (scan_segments .script "é ".toList "/*b*/ >>>= 1".toList).1 _ _ run⟩

end Token

end ScriptTree
