import ScriptTree.Proofs.Grammar.Lookahead

/-!
# Templates follow their phrase

The chunks of a template are not scanned as tokens, so its loop is compared
with the chunks directly.
-/

namespace ScriptTree

namespace Grammar

variable {settings : Settings} {category : Category}

open Implements

private def chunkRound (descent : Descent) (opening : SyntaxTree) (trees : Array SyntaxTree) :
    Parse (Round (Array SyntaxTree) (Array SyntaxTree)) := do
  let settings ← Parse.settings
  let state ← Parse.state
  match (Recognizer.template (Probe.ofPlace settings.size state.place)).verdict with
  | some ⟨.templateText, stop⟩ =>
      return .again (trees.push (← chunk (.rule .templateContent) stop false))
  | some ⟨.holeOpen, stop⟩ =>
      let hole ← chunk (.fixed .holeOpen) stop true
      let inner ← Parse.withIn (descent.read .expression)
      let closing ← expect .rightBrace
      return .again (((trees.push hole).push inner).push closing)
  | some ⟨.templateEnd, stop⟩ =>
      return .done (trees.push (← chunk (.fixed (.punctuator .backtick)) stop false))
  | _ =>
      Parse.fail ⟨.unterminatedTemplate, ⟨opening.span.start, state.place.offset⟩⟩

private def holeRest (descent : Descent) (trees : Array SyntaxTree) :
    Parse (Round (Array SyntaxTree) (Array SyntaxTree)) := do
  let inner ← Parse.withIn (descent.read .expression)
  let closing ← expect .rightBrace
  return .again ((trees.push inner).push closing)

private theorem holeRest_implements {trees : Array SyntaxTree} :
    Implements settings category anywhere trees.toList
      (fun result => .all [.within (.withNoIn false) (.ask .expression), .sign .rightBrace,
        .leave (goesOn result) true])
      (collected Array.toList Array.toList) (holeRest · trees) := by
  unfold holeRest
  refine andThen (withIn ask) fun inner => ?_
  exact andThen takes_sign fun closing => again (by simp)

/-- What one round does, depending on the chunk that is found. -/
private theorem chunkRound_eq (descent : Descent) (opening : SyntaxTree)
    (trees : Array SyntaxTree) (state : State) :
    chunkRound descent opening trees settings state =
      match state.point.chunk settings.size with
      | some ⟨.templateText, stop⟩ =>
          .ok (.again (trees.push (.leaf (.rule .templateContent) ⟨state.place.offset, stop⟩)))
            (state.moveTo (state.place.moveTo stop) false)
      | some ⟨.holeOpen, stop⟩ =>
          holeRest descent (trees.push (.leaf (.fixed .holeOpen) ⟨state.place.offset, stop⟩))
            settings (state.moveTo (state.place.moveTo stop) true)
      | some ⟨.templateEnd, stop⟩ =>
          .ok (.done (trees.push
            (.leaf (.fixed (.punctuator .backtick)) ⟨state.place.offset, stop⟩)))
            (state.moveTo (state.place.moveTo stop) false)
      | _ => .error ⟨.unterminatedTemplate, ⟨opening.span.start, state.place.offset⟩⟩ state := by
  unfold chunkRound Point.chunk State.point
  simp only [bind, Parse.bind, Parse.settings, Parse.state]
  generalize (Recognizer.template (Probe.ofPlace settings.size state.place)).verdict = verdict
  split <;> rfl

private theorem moved_valid (state : State) (place : Place) (allowed : Bool) :
    (state.moveTo place allowed).Valid settings :=
  fun _ looked => nomatch looked

private theorem moved_kept (state : State) (place : Place) (allowed : Bool) :
    Kept state (state.moveTo place allowed) :=
  ⟨rfl, rfl, fun _ member => member⟩

/-- What the loop over the chunks adds to the trees collected so far. -/
structure ChunksAlong (settings : Settings) (category : Category) (state : State)
    (trees : Array SyntaxTree) (last : State) (result : Array SyntaxTree) : Prop where
  valid : last.Valid settings
  kept : Kept state last
  reads : ∃ rest, result.toList = trees.toList ++ rest ∧
    Chunks settings category state.scope state.point rest last.point

private theorem chunks_read {descent : Descent} (sound : descent.Sound settings category)
    {opening : SyntaxTree} {result : Array SyntaxTree} {last : State} (rounds : Nat)
    {trees : Array SyntaxTree} {state : State}
    (run : iterate (chunkRound descent opening) rounds trees settings state = .ok result last) :
    ChunksAlong settings category state trees last result := by
  induction rounds generalizing trees state with
  | zero => cases run
  | succ rounds ih =>
      unfold iterate at run
      rw [chunkRound_eq] at run
      cases found : state.point.chunk settings.size with
      | none => simp [found] at run
      | some verdict =>
          obtain ⟨mark, stop⟩ := verdict
          cases mark with
          | templateText =>
              simp only [found] at run
              obtain ⟨valid, kept, rest, same, later⟩ := ih run
              refine ⟨valid, (moved_kept _ _ _).trans kept, _, ?_, .text found later⟩
              simp [same, State.point]
          | templateEnd =>
              simp only [found, Outcome.ok.injEq] at run
              obtain ⟨rfl, rfl⟩ := run
              exact ⟨moved_valid _ _ _, moved_kept _ _ _, _, by simp [State.point], .close found⟩
          | holeOpen =>
              simp only [found] at run
              split at run
              · rename_i ended after holeRun
                have along := holeRest_implements.reads sound (moved_valid _ _ _) trivial holeRun
                obtain ⟨_, _, _, _, _, _, wrong, _⟩ := along.reads
                cases wrong
              · rename_i advanced after holeRun
                have along := holeRest_implements.reads sound (moved_valid _ _ _) trivial holeRun
                obtain ⟨behind, _, ⟨inner, filled, rfl⟩, _, _,
                  ⟨brace, scanned, closes, rfl, rfl⟩, -, atBrace, collected⟩ := along.reads
                obtain ⟨valid, kept, rest, same, later⟩ := ih run
                rw [atBrace, along.kept.scope] at later
                refine ⟨valid, (moved_kept _ _ _).trans (along.kept.trans kept), _, ?_,
                  .hole found filled scanned closes later⟩
                simp only [Implements.collected] at collected
                rw [same, collected]
                simp [State.point]
              · cases run
          | _ => simp [found] at run

private theorem chunks_fail {descent : Descent} (sound : descent.Sound settings category)
    {opening : SyntaxTree} {fault : SyntaxError} {last : State} (rounds : Nat)
    {trees : Array SyntaxTree} {state : State}
    (run : iterate (chunkRound descent opening) rounds trees settings state =
      .error fault last) :
    Kept state last := by
  induction rounds generalizing trees state with
  | zero =>
      cases run
      exact .refl _
  | succ rounds ih =>
      unfold iterate at run
      rw [chunkRound_eq] at run
      cases found : state.point.chunk settings.size with
      | none =>
          simp only [found, Outcome.error.injEq] at run
          exact run.2 ▸ .refl _
      | some verdict =>
          obtain ⟨mark, stop⟩ := verdict
          cases mark with
          | templateText =>
              simp only [found] at run
              exact (moved_kept _ _ _).trans (ih run)
          | templateEnd => simp [found] at run
          | holeOpen =>
              simp only [found] at run
              split at run
              · cases run
              · rename_i advanced after holeRun
                have along := holeRest_implements.reads sound (moved_valid _ _ _) trivial holeRun
                exact (moved_kept _ _ _).trans (along.kept.trans (ih run))
              · rename_i holeRun
                cases run
                exact (moved_kept _ _ _).trans
                  (holeRest_implements.fails sound (moved_valid _ _ _) trivial holeRun)
          | _ =>
              simp only [found, Outcome.error.injEq] at run
              exact run.2 ▸ .refl _

private theorem chunks_ask {descent other : Descent} (sound : descent.Sound settings category)
    (sameRounds : other.rounds = descent.rounds) {opening : SyntaxTree} (rounds : Nat)
    {trees : Array SyntaxTree} {state : State}
    (agree : ∀ goal inner, inner.Valid settings →
      ChunkCalls settings category state.scope state.point goal inner.scope inner.point →
      other.read goal settings inner = descent.read goal settings inner) :
    iterate (chunkRound other opening) rounds trees settings state =
      iterate (chunkRound descent opening) rounds trees settings state := by
  induction rounds generalizing trees state with
  | zero => rfl
  | succ rounds ih =>
      unfold iterate
      rw [chunkRound_eq, chunkRound_eq]
      cases found : state.point.chunk settings.size with
      | none => rfl
      | some verdict =>
          obtain ⟨mark, stop⟩ := verdict
          cases mark with
          | templateText =>
              apply ih
              intro goal inner valid called
              exact agree goal inner valid (.text found called)
          | holeOpen =>
              have same : ∀ trees, holeRest other trees settings
                  (state.moveTo (state.place.moveTo stop) true) =
                  holeRest descent trees settings
                    (state.moveTo (state.place.moveTo stop) true) := by
                intro trees
                apply holeRest_implements.asks sound (moved_valid _ _ _) trivial sameRounds
                rintro goal inner value valid
                  (⟨rfl, scope, point⟩ | ⟨_, _, _, called | ⟨_, _, _, called⟩⟩)
                · apply agree _ inner valid
                  rw [scope, point]
                  exact .here found
                · cases called
                · cases called
              simp only [same]
              split
              · rfl
              · rename_i advanced after holeRun
                have along := holeRest_implements.reads sound (moved_valid _ _ _) trivial holeRun
                obtain ⟨behind, _, ⟨inner, filled, rfl⟩, _, _,
                  ⟨brace, scanned, closes, rfl, rfl⟩, -, atBrace, -⟩ := along.reads
                apply ih
                intro goal inner valid called
                rw [atBrace, along.kept.scope] at called
                exact agree goal inner valid (.hole found filled scanned closes called)
              · rfl
          | _ => rfl

private theorem template_run (descent : Descent) (state : State) :
    template descent settings state =
      match expect .backtick settings state with
      | .error fault after => .error fault after
      | .ok opening after =>
          match iterate (chunkRound descent opening) descent.rounds #[opening] settings after with
          | .error fault last => .error fault last
          | .ok trees last => .ok (build .templateString trees.toList) last := by
  change Parse.bind _ _ settings state = _
  unfold Parse.bind
  cases expect .backtick settings state with
  | error fault after => rfl
  | ok opening after =>
      change Parse.bind (iterate (chunkRound descent opening) _ _) _ settings after = _
      unfold Parse.bind
      simp only
      cases iterate (chunkRound descent opening) descent.rounds #[opening] settings after <;> rfl

private theorem backtick_taken :
    Produces settings category (.sign .backtick) fun _ => expect .backtick :=
  takes_sign

theorem template_produces : Produces settings category .template template where
  reads := by
    intro descent state last tree sound valid _ run
    rw [template_run] at run
    split at run
    · cases run
    · rename_i opening after openRun
      have opened := backtick_taken.reads sound valid trivial openRun
      obtain ⟨token, scanned, opens, atToken, isLeaf⟩ := opened.reads
      split at run
      · cases run
      · rename_i trees final loopRun
        cases run
        obtain ⟨lastValid, kept, rest, same, chunks⟩ := chunks_read sound _ loopRun
        rw [atToken, opened.kept.scope] at chunks
        refine ⟨lastValid, opened.kept.trans kept, token, rest, scanned, opens, chunks, ?_⟩
        obtain rfl : opening = .leaf (.fixed (.punctuator .backtick)) token.span := by
          simpa using isLeaf
        rw [same]
        rfl
  fails := by
    intro descent state last fault sound valid _ run
    rw [template_run] at run
    split at run
    · rename_i openRun
      cases run
      exact backtick_taken.fails sound valid trivial openRun
    · rename_i opening after openRun
      have opened := backtick_taken.reads sound valid trivial openRun
      split at run
      · rename_i loopRun
        cases run
        exact opened.kept.trans (chunks_fail sound _ loopRun)
      · cases run
  asks := by
    intro descent other state sound valid _ rounds agree
    rw [template_run, template_run]
    split
    · rfl
    · rename_i opening after openRun
      have opened := backtick_taken.reads sound valid trivial openRun
      obtain ⟨token, scanned, opens, atToken, -⟩ := opened.reads
      rw [rounds, chunks_ask sound rounds]
      intro goal inner innerValid called
      rw [atToken, opened.kept.scope] at called
      exact agree goal inner default innerValid ⟨token, scanned, opens, called⟩

end Grammar

end ScriptTree
