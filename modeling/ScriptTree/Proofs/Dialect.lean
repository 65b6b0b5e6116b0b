import ScriptTree.Proofs.Grammar.Enough
import ScriptTree.Transform

/-!
# The word of a dialect

The dialects differ in a single word.  A text that does not contain it is
scanned in the same way in all of them, and is therefore read and rebuilt in
the same way.
-/

namespace ScriptTree

open Grammar

/-! ## Scanning -/

namespace Token

theorem wordKind_same {word : Text} (other : word ≠ Keyword.extendsWord.chars) (one two : Dialect) :
    wordKind one word = wordKind two word := by
  simp [wordKind, Recognizer.dialectWord?, other]

/-- A word that is scanned is a piece of the text. -/
theorem word_infix {source : Text} {place : Place} (on : Place.On source place)
    (test : Char → Bool) : place.rest.takeWhile test <:+: source := by
  obtain ⟨before, reaches⟩ := on
  rw [show source = before ++ place.rest from reaches.rest]
  exact (List.takeWhile_prefix test).isInfix.trans (List.suffix_append before _).isInfix

theorem scan_same {source : Text} {place : Place} (on : Place.On source place)
    (absent : ¬Keyword.extendsWord.chars <:+: source) (patternAllowed : Bool) (one two : Dialect) :
    scan one place patternAllowed = scan two place patternAllowed := by
  unfold scan
  cases skipped : Trivia.skip place with
  | error fault => rfl
  | ok found =>
      obtain ⟨start, gap⟩ := found
      obtain ⟨space, reaches, -⟩ := Trivia.skip_reaches skipped
      have other : start.rest.takeWhile isNamePart ≠ Keyword.extendsWord.chars :=
        fun same => absent (same ▸ word_infix (on.after reaches) _)
      have lexed (first : Char) :
          lexeme one patternAllowed start first = lexeme two patternAllowed start first := by
        unfold lexeme
        rw [wordKind_same other one two]
      simp only [bind, Except.bind, lexed]

end Token

namespace Grammar

/-! ## Reading -/

def Settings.speaking (settings : Settings) (dialect : Dialect) : Settings :=
  { settings with dialect }

@[simp]
theorem Settings.source_speaking (settings : Settings) (dialect : Dialect) :
    (settings.speaking dialect).source = settings.source :=
  rfl

@[simp]
theorem Settings.size_speaking (settings : Settings) (dialect : Dialect) :
    (settings.speaking dialect).size = settings.size :=
  rfl

def inDialects (settings : Settings) (one two : Dialect) : Comparison where
  quits _ := False
  related before after := before = after ∧ before.Stands (settings.speaking one)
  first := settings.speaking one
  second := settings.speaking two

section

variable {settings : Settings} {one two : Dialect} {state : State} {token : Token}

theorem Faces.across (absent : ¬Keyword.extendsWord.chars <:+: settings.source)
    (on : Place.On settings.source state.place)
    (faces : Faces (settings.speaking one) state token) :
    Faces (settings.speaking two) state token := by
  have same : state.point.next two = state.point.next one := Token.scan_same on absent _ _ _
  exact ⟨fun found looked => same.trans (faces.valid found looked), same.trans faces.next⟩

/-- What cannot be scanned in one dialect cannot be scanned in the other. -/
theorem peek_stops_across {fault : SyntaxError}
    (absent : ¬Keyword.extendsWord.chars <:+: settings.source)
    (on : Place.On settings.source state.place)
    (scanned : state.point.next (settings.speaking one).dialect = .error fault)
    (unseen : state.peeked = none) :
    peek (settings.speaking two) state = .error fault state := by
  have same : state.point.next (settings.speaking two).dialect =
      state.point.next (settings.speaking one).dialect := Token.scan_same on absent _ _ _
  rw [scanned] at same
  exact peek_stops same unseen

theorem inDialects_peek (absent : ¬Keyword.extendsWord.chars <:+: settings.source) :
    (inDialects settings one two).Follows peek peek := by
  rintro state _ ⟨rfl, stands⟩
  dsimp only [inDialects]
  rcases stands.faces with ⟨token, faces⟩ | ⟨fault, scanned, unseen⟩
  · rw [peek_run faces, peek_run (faces.across absent stands.on)]
    exact .ok token ⟨rfl, faces.look.valid, stands.on⟩
  · rw [peek_stops scanned unseen, peek_stops_across absent stands.on scanned unseen]
    exact .error fault ⟨rfl, stands⟩

theorem inDialects_peekSecond (absent : ¬Keyword.extendsWord.chars <:+: settings.source) :
    (inDialects settings one two).Follows peekSecond peekSecond := by
  rintro state _ ⟨rfl, stands⟩
  dsimp only [inDialects]
  rcases stands.faces with ⟨token, faces⟩ | ⟨fault, scanned, unseen⟩
  · obtain ⟨onToken, -⟩ := Point.on_after stands.on faces.next
    have looked : (state.look token).Stands (settings.speaking one) :=
      ⟨faces.look.valid, stands.on⟩
    have same : (Point.after token).next (settings.speaking two).dialect =
        (Point.after token).next (settings.speaking one).dialect :=
      Token.scan_same onToken absent _ _ _
    rw [peekSecond_scans faces, peekSecond_scans (faces.across absent stands.on), same]
    cases (Point.after token).next (settings.speaking one).dialect with
    | ok second => exact .ok second ⟨rfl, looked⟩
    | error fault => exact .error fault ⟨rfl, looked⟩
  · unfold peekSecond
    rw [bind_stops (peek_stops scanned unseen),
      bind_stops (peek_stops_across absent stands.on scanned unseen)]
    exact .error fault ⟨rfl, stands⟩

theorem inDialects_advance (absent : ¬Keyword.extendsWord.chars <:+: settings.source) :
    (inDialects settings one two).Follows advance advance := by
  rintro state _ ⟨rfl, stands⟩
  dsimp only [inDialects]
  rcases stands.faces with ⟨token, faces⟩ | ⟨fault, scanned, unseen⟩
  · obtain ⟨onToken, -⟩ := Point.on_after stands.on faces.next
    rw [advance_run faces, advance_run (faces.across absent stands.on)]
    exact .ok token ⟨rfl, .moved onToken _ _⟩
  · unfold advance
    rw [bind_stops (peek_stops scanned unseen),
      bind_stops (peek_stops_across absent stands.on scanned unseen)]
    exact .error fault ⟨rfl, stands⟩

theorem inDialects_piece (sized : settings.size = Text.size settings.source) :
    (inDialects settings one two).Follows piece piece := by
  rintro state _ ⟨rfl, stands⟩
  have same : piece (settings.speaking two) state =
      piece (settings.speaking one) state := rfl
  dsimp only [inDialects]
  rw [same]
  have moves : Moves (settings.speaking one) (·.isSome) fun _ => piece := .piece sized
  cases run : piece (settings.speaking one) state with
  | ok found after =>
      exact .ok found ⟨rfl, (moves.ok (read_moves (by exact sized) 0 0) stands run).1⟩
  | error fault after =>
      unfold piece at run
      split at run <;> cases run

theorem inDialects_sound (absent : ¬Keyword.extendsWord.chars <:+: settings.source)
    (sized : settings.size = Text.size settings.source) :
    (inDialects settings one two).Sound where
  settings := ⟨two, settings.limit, settings.recallsHeads, rfl⟩
  point related := congrArg State.point related.1
  scope related := congrArg State.scope related.1
  peek := inDialects_peek absent
  peekSecond := inDialects_peekSecond absent
  advance := inDialects_advance absent
  piece := inDialects_piece sized
  enter shift := by
    rintro _ _ ⟨rfl, stands⟩
    exact ⟨rfl, shift.stands_enter stands⟩
  leave shift := by
    rintro before _ _ _ ⟨rfl, -⟩ ⟨rfl, stands⟩
    exact ⟨rfl, shift.stands_leave before stands⟩
  nested := by
    rintro Value first second follows state _ ⟨rfl, stands⟩
    have inner := follows { state with depth := state.depth + 1 } _ ⟨rfl, stands.valid, stands.on⟩
    let rise (after : State) : State := { after with depth := after.depth - 1 }
    have deeper : (inDialects settings one two).Matches (Outcome.mapState rise _)
        (Outcome.mapState rise _) :=
      inner.mapState fun both => ⟨congrArg rise both.1, both.2.valid, both.2.on⟩
    have firstLimit : (inDialects settings one two).first.limit = settings.limit := rfl
    have secondLimit : (inDialects settings one two).second.limit = settings.limit := rfl
    unfold Parse.nested
    rw [firstLimit, secondLimit]
    cases settings.limit with
    | none => exact deeper
    | some limit =>
        by_cases reached : limit ≤ state.depth
        · simp only [if_pos reached]
          exact .error _ ⟨rfl, stands⟩
        · simp only [if_neg reached]
          exact deeper

theorem inDialects_remembers : (inDialects settings one two).Remembers where
  final := False.elim
  rewind := by
    rintro _ _ _ _ ⟨rfl, stands⟩ ⟨rfl, -⟩
    exact ⟨rfl, stands.valid, stands.on⟩
  recalls := rfl
  heads related _ := congrArg State.rejectedHeads related.1
  rejects offset := by
    rintro _ _ ⟨rfl, stands⟩
    exact ⟨rfl, stands.valid, stands.on⟩

theorem read_inDialects (absent : ¬Keyword.extendsWord.chars <:+: settings.source)
    (sized : settings.size = Text.size settings.source) (steps : Nat) (goal : Goal) :
    (inDialects settings one two).Follows (read steps goal) (read steps goal) := by
  induction steps generalizing goal with
  | zero => exact Comparison.follows_fail stalled
  | succ steps ih =>
      have sound : (inDialects settings one two).Sound := inDialects_sound absent sized
      let descent : Descent := ⟨steps, read steps⟩
      have arrows := inDialects_remembers.arrows sound descent descent
      exact sound.follows ih (Nat.le_refl _) (fun less => absurd less (Nat.lt_irrefl _))
        (fun _ => arrows) (produce_assembled goal fun _ => trivial)

theorem parseWith_inDialects (absent : ¬Keyword.extendsWord.chars <:+: settings.source)
    (sized : settings.size = Text.size settings.source) :
    parseWith (settings.speaking one) = parseWith (settings.speaking two) := by
  have sound : (inDialects settings one two).Sound := inDialects_sound absent sized
  let descent : Descent := ⟨stepsFor settings.size, read (stepsFor settings.size)⟩
  have arrows := inDialects_remembers.arrows sound descent descent
  have first : Place.On settings.source (State.initial settings.source).place :=
    Place.On.first settings.source
  have matched := sound.follows (read_inDialects absent sized _) (Nat.le_refl _)
    (fun less => absurd less (Nat.lt_irrefl _)) (fun _ : True => arrows) script_assembled
    (State.initial settings.source) _ ⟨rfl, nofun, first⟩
  change (inDialects settings one two).Matches
    (script _ (settings.speaking one) _) (script _ (settings.speaking two) _)
    at matched
  unfold parseWith
  simp only [Settings.source_speaking, Settings.size_speaking]
  generalize script _ (settings.speaking one) _ = found at matched
  generalize script _ (settings.speaking two) _ = other at matched
  cases matched with
  | ok tree => rfl
  | error fault => rfl
  | quit never => exact never.elim

end

end Grammar

/-- A text without the word that only one dialect reserves is read and rebuilt
alike in both of them, within any bounds. -/
theorem dialect_reserves_only (bounds : Bounds) (source : Text)
    (absent : ¬['e', 'x', 't', 'e', 'n', 'd', 's'] <:+: source) :
    parse ⟨.typeScript, bounds⟩ source = parse ⟨.script, bounds⟩ source ∧
      transform ⟨.typeScript, bounds⟩ source = transform ⟨.script, bounds⟩ source := by
  have parsed : parse ⟨.typeScript, bounds⟩ source = parse ⟨.script, bounds⟩ source :=
    @parseWith_inDialects (.ofOptions ⟨.script, bounds⟩ source) .typeScript .script absent rfl
  refine ⟨parsed, ?_⟩
  unfold transform
  rw [parsed]
  rfl

/-- A class without a parent, in a text that almost has the word. -/
theorem dialect_reserves_only_class :
    ¬['e', 'x', 't', 'e', 'n', 'd', 's'] <:+: "class extend {}".toList ∧
      parse ⟨.typeScript, .standard⟩ "class extend {}".toList =
        parse ⟨.script, .standard⟩ "class extend {}".toList ∧
      transform ⟨.typeScript, .standard⟩ "class extend {}".toList =
        transform ⟨.script, .standard⟩ "class extend {}".toList := by
  have absent : ¬['e', 'x', 't', 'e', 'n', 'd', 's'] <:+: "class extend {}".toList := by decide
  exact ⟨absent, dialect_reserves_only .standard _ absent⟩

end ScriptTree
