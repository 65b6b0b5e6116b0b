import ScriptTree.Grammar.Lookahead
import ScriptTree.Proofs.Scan

/-!
# Where scanning fails

An error names a piece of the text, from one character boundary to another,
and says something about it.  The errors of scanning start with the token that
could not be read, or with the comment that is not closed.
-/

namespace ScriptTree

namespace SyntaxError

/-- What a cause says about the text that an error covers, the text behind it
and the limit on nesting. -/
def Cause.Fits (limit : Option Nat) (covered behind : Text) : Cause → Prop
  | .unexpectedToken found _ => found = covered ∧ covered ≠ []
  | .unexpectedEnd _ => covered = [] ∧ behind = []
  | .invalidNumber found => found = covered
  | .invalidCharacter character => covered = [character]
  | .nestingTooDeep bound => limit = some bound ∧ covered = []
  | .stalled => False
  | .unterminatedString | .unterminatedComment | .unterminatedTemplate | .unterminatedPattern =>
      True

/-- An error covers a piece of the text that its cause fits. -/
def Located (limit : Option Nat) (source : Text) (fault : SyntaxError) : Prop :=
  ∃ before covered behind, source = before ++ covered ++ behind ∧
    fault.span = ⟨Text.size before, Text.size (before ++ covered)⟩ ∧
    fault.cause.Fits limit covered behind

variable {limit : Option Nat} {source covered : Text} {fault : SyntaxError} {start stop : Place}

theorem Located.of_reaches (on : Place.On source start) (reaches : start.Reaches covered stop)
    (span : fault.span = ⟨start.offset, stop.offset⟩)
    (fits : fault.cause.Fits limit covered stop.rest) : fault.Located limit source := by
  obtain ⟨before, toStart⟩ := on
  have whole := toStart.trans reaches
  refine ⟨before, covered, stop.rest, whole.rest, ?_, fits⟩
  rw [span, toStart.offset, whole.offset]
  simp [Place.first]

/-- The span of a located error lies in the text and covers a piece of it. -/
theorem Located.span_text (located : fault.Located limit source) :
    fault.span.start ≤ fault.span.stop ∧ fault.span.stop ≤ Text.size source ∧
      ∃ text, fault.span.text? source = some text := by
  obtain ⟨before, covered, behind, rfl, span, -⟩ := located
  rw [span]
  refine ⟨?_, ?_, covered, ?_⟩
  · simp [Text.size_append]
  · simp [Text.size_append]
  · simp [Span.text?, Text.size_append, Text.slice?_append]

end SyntaxError

section

variable {limit : Option Nat} {source : Text} {fault : SyntaxError}

/-! ## Comments -/

namespace Trivia

/-- The only error of trivia covers a comment up to the end of the text. -/
theorem skipFrom_located {text : Text} {offset : Nat} {inside : Inside} {gap : Gap}
    (run : skipFrom text offset inside gap = .error fault)
    (on : Place.On source ⟨offset, text⟩)
    (opened : ∀ start, inside = .blockComment start → ∃ opening passed,
      Place.On source opening ∧ opening.offset = start ∧ opening.Reaches passed ⟨offset, text⟩) :
    fault.Located limit source := by
  have outside {place : Place} {start : Nat} (same : Inside.nothing = .blockComment start) :
      ∃ opening passed, Place.On source opening ∧ opening.offset = start ∧
        opening.Reaches passed place := by
    cases same
  fun_induction skipFrom text offset inside gap with
  | case1 offset start gap =>
      cases run
      obtain ⟨opening, passed, onOpening, rfl, reaches⟩ := opened start rfl
      exact .of_reaches onOpening reaches rfl trivial
  | case2 => cases run
  | case3 rest offset start gap ih =>
      exact ih run (on.after (Place.reaches_cons (Place.reaches_cons (.refl _)))) fun _ => outside
  | case4 character rest offset start gap notClosing ih =>
      have further : (Place.mk offset (character :: rest)).Reaches [character] _ :=
        Place.reaches_cons (.refl _)
      refine ih run (on.after further) ?_
      rintro _ ⟨⟩
      obtain ⟨opening, passed, onOpening, same, reaches⟩ := opened start rfl
      exact ⟨opening, _, onOpening, same, reaches.trans further⟩
  | case5 character rest offset gap newline ih =>
      exact ih run (on.after (Place.reaches_cons (.refl _))) fun _ => outside
  | case6 character rest offset gap inLine ih =>
      exact ih run (on.after (Place.reaches_cons (.refl _))) (by rintro _ ⟨⟩)
  | case7 rest offset gap ih =>
      exact ih run (on.after (Place.reaches_cons (Place.reaches_cons (.refl _)))) (by
        rintro _ ⟨⟩)
  | case8 rest offset gap ih =>
      have opens : (Place.mk offset ('/' :: '*' :: rest)).Reaches ['/', '*'] _ :=
        Place.reaches_cons (Place.reaches_cons (.refl _))
      refine ih run (on.after opens) ?_
      rintro _ ⟨⟩
      exact ⟨_, _, on, rfl, opens⟩
  | case9 character rest offset gap notLine notBlock newline ih =>
      exact ih run (on.after (Place.reaches_cons (.refl _))) fun _ => outside
  | case10 character rest offset gap notLine notBlock notNewline blank ih =>
      exact ih run (on.after (Place.reaches_cons (.refl _))) fun _ => outside
  | case11 => cases run

end Trivia

/-! ## Lexemes -/

namespace Lexeme

variable {start stop : Place} {first : Char} {rest : Text}

theorem invalidNumber_located {covered : Text} (on : Place.On source start)
    (reaches : start.Reaches covered stop) : (invalidNumber start stop).Located limit source :=
  .of_reaches on reaches rfl reaches.upTo_eq

theorem basedDigits_located {base : Nat} (on : Place.On source start)
    (run : basedDigits base start = .error fault) : fault.Located limit source := by
  unfold basedDigits at run
  dsimp only at run
  split at run
  · cases run
    exact invalidNumber_located on
      ((Place.reaches_advance start 2).trans (Place.reaches_skipWhile _ _))
  · cases run

/-- A number that was read well but runs into a name. -/
theorem runsOn_located {covered : Text} (on : Place.On source start)
    (reaches : start.Reaches covered stop)
    (run : (let last := if stop.current = some 'n' then stop.step else stop
      if last.current.any isNamePart then .error (invalidNumber start last.step)
      else .ok last) = (Except.error fault : Except SyntaxError Place)) :
    fault.Located limit source := by
  obtain ⟨suffix, -, toLast⟩ := suffix_isSuffix stop
  simp only at run
  generalize (if stop.current = some 'n' then stop.step else stop) = last at run toLast
  split at run
  · rename_i runsOn
    cases run
    cases current : last.current with
    | none =>
        rw [current] at runsOn
        cases runsOn
    | some next =>
        obtain ⟨rest, starts⟩ := List.head?_eq_some_iff.mp current
        exact invalidNumber_located on ((reaches.trans toLast).trans (Place.reaches_step starts))
  · cases run

theorem number_located (on : Place.On source start) (run : number start = .error fault) :
    fault.Located limit source := by
  unfold number at run
  split at run
  · rename_i base announced
    cases based : basedDigits base start with
    | error other =>
        rw [based] at run
        cases run
        exact basedDigits_located on based
    | ok digits =>
        obtain ⟨mark, text, -, -, -, reaches⟩ := basedDigits_isBased announced based
        rw [based] at run
        exact runsOn_located on reaches run
  · obtain ⟨more, -, toFraction⟩ := fraction_isFraction (start.skipWhile isDigitOrSeparator)
    obtain ⟨text, -, toExponent⟩ :=
      exponent_isExponent (fraction (start.skipWhile isDigitOrSeparator))
    exact runsOn_located on (((Place.reaches_skipWhile _ _).trans toFraction).trans toExponent) run

/-- A string that is not closed ends before a line break or at the end of the
text. -/
theorem closingQuote_stops {quote : Char} {text : Text} {offset last : Nat}
    (run : closingQuote quote text offset = .error last) :
    ∃ passed rest, (Place.mk offset text).Reaches passed ⟨last, rest⟩ := by
  fun_induction closingQuote quote text offset with
  | case1 =>
      cases run
      exact ⟨[], _, .refl _⟩
  | case2 =>
      cases run
      exact ⟨_, _, Place.reaches_cons (.refl _)⟩
  | case3 rest offset ih =>
      obtain ⟨passed, behind, reaches⟩ := ih run
      exact ⟨_, _, Place.reaches_cons (Place.reaches_cons (Place.reaches_cons reaches))⟩
  | case4 hidden rest offset notBreak ih =>
      obtain ⟨passed, behind, reaches⟩ := ih run
      exact ⟨_, _, Place.reaches_cons (Place.reaches_cons reaches)⟩
  | case5 =>
      cases run
      exact ⟨[], _, .refl _⟩
  | case6 => cases run
  | case7 character rest offset _ _ _ _ _ ih =>
      obtain ⟨passed, behind, reaches⟩ := ih run
      exact ⟨_, _, Place.reaches_cons reaches⟩

theorem string_located {quote : Char} (on : Place.On source start)
    (starts : start.rest = first :: rest) (run : string start quote = .error fault) :
    fault.Located limit source := by
  unfold string at run
  split at run
  · cases run
  · rename_i last stops
    cases run
    obtain ⟨passed, behind, reaches⟩ := closingQuote_stops stops
    exact .of_reaches on ((Place.reaches_step starts).trans reaches) rfl trivial

/-- A pattern that is not closed ends before a line break, behind a backslash
or at the end of the text. -/
theorem closingSlash_stops {inClass : Bool} {text : Text} {offset last : Nat}
    (run : closingSlash inClass text offset = .error last) :
    ∃ passed rest, (Place.mk offset text).Reaches passed ⟨last, rest⟩ := by
  fun_induction closingSlash inClass text offset with
  | case1 =>
      cases run
      exact ⟨[], _, .refl _⟩
  | case2 =>
      cases run
      exact ⟨_, _, Place.reaches_cons (.refl _)⟩
  | case3 =>
      cases run
      exact ⟨_, _, Place.reaches_cons (.refl _)⟩
  | case4 inClass hidden rest offset inLine ih =>
      obtain ⟨passed, behind, reaches⟩ := ih run
      exact ⟨_, _, Place.reaches_cons (Place.reaches_cons reaches)⟩
  | case5 =>
      cases run
      exact ⟨[], _, .refl _⟩
  | case6 => cases run
  | case7 inClass rest offset _ _ _ _ ih =>
      obtain ⟨passed, behind, reaches⟩ := ih run
      exact ⟨_, _, Place.reaches_cons reaches⟩
  | case8 inClass rest offset _ _ _ _ _ ih =>
      obtain ⟨passed, behind, reaches⟩ := ih run
      exact ⟨_, _, Place.reaches_cons reaches⟩
  | case9 inClass character rest offset _ _ _ _ _ _ ih =>
      obtain ⟨passed, behind, reaches⟩ := ih run
      exact ⟨_, _, Place.reaches_cons reaches⟩

theorem pattern_located (on : Place.On source start) (starts : start.rest = first :: rest)
    (run : pattern start = .error fault) : fault.Located limit source := by
  unfold pattern at run
  split at run
  · cases run
  · rename_i last stops
    cases run
    obtain ⟨passed, behind, reaches⟩ := closingSlash_stops stops
    exact .of_reaches on ((Place.reaches_step starts).trans reaches) rfl trivial

end Lexeme

/-! ## Tokens -/

namespace Token

variable {dialect : Dialect} {patternAllowed : Bool}

theorem lexeme_located {start : Place} {first : Char} {rest : Text} (on : Place.On source start)
    (starts : start.rest = first :: rest)
    (run : lexeme dialect patternAllowed start first = .error fault) :
    fault.Located limit source := by
  have mapped {found : Except SyntaxError Place} {kind : TokenKind}
      (located : ∀ fault : SyntaxError, found = .error fault → fault.Located limit source)
      (run : found.map (kind, ·) = .error fault) : fault.Located limit source := by
    cases found with
    | error other =>
        cases run
        exact located _ rfl
    | ok place => cases run
  unfold lexeme at run
  split at run
  · cases run
  split at run
  · exact mapped (fun _ => Lexeme.number_located on) run
  split at run
  · exact mapped (fun _ => Lexeme.string_located on starts) run
  split at run
  · exact mapped (fun _ => Lexeme.pattern_located on starts) run
  split at run
  · cases run
  · cases run
    exact .of_reaches on (Place.reaches_step starts) (by simp [Place.step, starts]) rfl

theorem scan_located {place : Place} (on : Place.On source place)
    (run : scan dialect place patternAllowed = .error fault) : fault.Located limit source := by
  unfold scan at run
  cases skipped : Trivia.skip place with
  | error other =>
      rw [skipped] at run
      cases run
      exact Trivia.skipFrom_located skipped on nofun
  | ok found =>
      obtain ⟨start, gap⟩ := found
      obtain ⟨space, reaches, -⟩ := Trivia.skip_reaches skipped
      rw [skipped] at run
      dsimp only [bind, Except.bind] at run
      split at run
      · cases run
      · rename_i first rest starts
        cases lexed : lexeme dialect patternAllowed start first with
        | error other =>
            rw [lexed] at run
            cases run
            exact lexeme_located (on.after reaches) starts lexed
        | ok result =>
            rw [lexed] at run
            cases run

/-- A token lies in a text, where it was scanned. -/
def In (source : Text) (token : Token) : Prop :=
  ∃ dialect place patternAllowed, Place.On source place ∧
    scan dialect place patternAllowed = .ok token

/-- The error about a token covers the token. -/
theorem In.unexpected_located {token : Token} (inside : token.In source)
    (expected : Expectation) : (Grammar.unexpected token expected).Located limit source := by
  obtain ⟨dialect, place, patternAllowed, on, scanned⟩ := inside
  have known := scan_scanned scanned
  obtain ⟨space, toStart, -⟩ := Trivia.skip_reaches known.skipped
  have onStart := on.after toStart
  unfold Grammar.unexpected
  cases ends : token.isEnd with
  | true =>
      have nothing := known.ends ends
      obtain ⟨noText, noRest⟩ := List.append_eq_nil_iff.mp (known.covers.rest.symm.trans nothing)
      exact .of_reaches onStart known.covers rfl ⟨noText, noRest⟩
  | false => exact .of_reaches onStart known.covers rfl ⟨rfl, known.nonempty ends⟩

end Token

end

end ScriptTree
