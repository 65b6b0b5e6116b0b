import ScriptTree.Proofs.Grammar.Comparison
import ScriptTree.Proofs.Rebuild.Agreement
import ScriptTree.Proofs.Rebuild.Faults

/-!
# The bound on nesting

A bound does nothing but turn results into its own error.  Without a bound
that error is never met, and with one no node that is rebuilt lies deeper.
-/

namespace ScriptTree

open Grammar

/-- An error over the nesting of a text. -/
def SyntaxError.IsTooDeep (fault : SyntaxError) : Prop :=
  ∃ bound, fault.cause = .nestingTooDeep bound

theorem SyntaxError.IsTooDeep.not_ordinary {fault : SyntaxError} (deep : fault.IsTooDeep) :
    ¬fault.Ordinary := by
  obtain ⟨bound, cause⟩ := deep
  unfold SyntaxError.Ordinary Parse.isFinal
  rw [cause]
  simp

/-- One limit allows whatever another one does.  No limit allows
everything. -/
def Looser (tight loose : Option Nat) : Prop :=
  ∀ bound, loose = some bound → ∃ smaller, tight = some smaller ∧ smaller ≤ bound

namespace Grammar

/-! ## Reading under two limits -/

def underLimits (settings : Settings) (tight loose : Option Nat) : Comparison where
  quits := SyntaxError.IsTooDeep
  related := Eq
  first := { settings with limit := tight }
  second := { settings with limit := loose }

section

variable {settings : Settings} {tight loose : Option Nat}

theorem underLimits_nested (looser : Looser tight loose) {Value : Type} {one two : Parse Value}
    (follows : (underLimits settings tight loose).Follows one two) :
    (underLimits settings tight loose).Follows (Parse.nested one) (Parse.nested two) := by
  rintro before _ rfl
  have inner := follows { before with depth := before.depth + 1 } _ rfl
  let rise (after : State) : State := { after with depth := after.depth - 1 }
  have deeper : (underLimits settings tight loose).Matches (Outcome.mapState rise _)
      (Outcome.mapState rise _) := inner.mapState fun same => congrArg rise same
  unfold Parse.nested
  dsimp only [underLimits]
  cases tight with
  | none =>
      cases loose with
      | none => exact deeper
      | some bound =>
          obtain ⟨smaller, impossible, -⟩ := looser bound rfl
          cases impossible
  | some smaller =>
      by_cases reached : smaller ≤ before.depth
      · dsimp only
        rw [if_pos reached]
        exact .quit ⟨smaller, rfl⟩
      · dsimp only
        rw [if_neg reached]
        cases loose with
        | none => exact deeper
        | some bound =>
            obtain ⟨_, same, le⟩ := looser bound rfl
            cases same
            have further : ¬bound ≤ before.depth := by omega
            dsimp only
            rw [if_neg further]
            exact deeper

theorem underLimits_peek : (underLimits settings tight loose).Follows peek peek := by
  rintro before _ rfl
  change (underLimits settings tight loose).Matches (peek settings before) (peek settings before)
  cases peek settings before with
  | ok token after => exact .ok token rfl
  | error fault after => exact .error fault rfl

theorem underLimits_moves : (underLimits settings tight loose).Moves := by
  rintro place patternAllowed _ _ rfl
  rfl

theorem underLimits_sound (looser : Looser tight loose) :
    (underLimits settings tight loose).Sound where
  settings := ⟨settings.dialect, loose, settings.recallsHeads, rfl⟩
  point same := congrArg State.point same
  scope same := congrArg State.scope same
  peek := underLimits_peek
  peekSecond := Comparison.follows_peekSecond rfl underLimits_peek
  advance := underLimits_moves.advance underLimits_peek
  piece := underLimits_moves.piece rfl fun same => congrArg State.point same
  enter shift := by
    rintro _ _ rfl
    rfl
  leave shift := by
    rintro _ _ _ _ rfl rfl
    rfl
  nested := underLimits_nested looser

theorem underLimits_remembers : (underLimits settings tight loose).Remembers where
  final deep := by
    simpa using deep.not_ordinary
  rewind := by
    rintro _ _ _ _ rfl rfl
    rfl
  recalls := rfl
  heads := by
    rintro _ _ rfl _
    rfl
  rejects offset := by
    rintro _ _ rfl
    rfl

theorem read_follows (looser : Looser tight loose) (steps : Nat) (goal : Goal) :
    (underLimits settings tight loose).Follows (read steps goal) (read steps goal) := by
  induction steps generalizing goal with
  | zero => exact Comparison.follows_fail stalled
  | succ steps ih =>
      have sound : (underLimits settings tight loose).Sound := underLimits_sound looser
      let descent : Descent := ⟨steps, read steps⟩
      have arrows := underLimits_remembers.arrows sound descent descent
      exact sound.follows ih (Nat.le_refl _) (fun less => absurd less (Nat.lt_irrefl _))
        (fun _ => arrows) (produce_assembled goal fun _ => trivial)

/-- Under a looser limit a text is read as before, unless the limit before was
the reason of an error. -/
theorem parseWith_looser (looser : Looser tight loose) :
    (∃ fault, parseWith { settings with limit := tight } = .error fault ∧ fault.IsTooDeep) ∨
      parseWith { settings with limit := loose } = parseWith { settings with limit := tight } := by
  have sound : (underLimits settings tight loose).Sound := underLimits_sound looser
  let descent : Descent := ⟨stepsFor settings.size, read (stepsFor settings.size)⟩
  have arrows := underLimits_remembers.arrows sound descent descent
  have matched := sound.follows (read_follows looser _) (Nat.le_refl _)
    (fun less => absurd less (Nat.lt_irrefl _)) (fun _ : True => arrows) script_assembled
    (State.initial settings.source) _ rfl
  change (underLimits settings tight loose).Matches
    (script _ { settings with limit := tight } _) (script _ { settings with limit := loose } _)
    at matched
  unfold parseWith
  dsimp only
  generalize script _ { settings with limit := tight } _ = found at matched
  generalize script _ { settings with limit := loose } _ = other at matched
  cases matched with
  | ok tree => exact .inr rfl
  | error fault => exact .inr rfl
  | quit deep => exact .inl ⟨_, rfl, deep⟩

end

/-! ## Reading without a limit -/

def Fails {Value : Type} (settings : Settings) (holds : SyntaxError → Prop)
    (step : Parse Value) : Prop :=
  ∀ state fault after, step settings state = .error fault after → holds fault

section

variable {settings : Settings} {holds : SyntaxError → Prop} {Value Other : Type}

theorem Fails.bind {step : Parse Other} {next : Other → Parse Value}
    (first : Fails settings holds step) (later : ∀ value, Fails settings holds (next value)) :
    Fails settings holds (step >>= next) := by
  intro state fault after run
  obtain stepRun | ⟨value, between, -, nextRun⟩ := bind_error run
  · exact first _ _ _ stepRun
  · exact later value _ _ _ nextRun

theorem Fails.attempt {step : Parse Value} (fails : Fails settings holds step) :
    Fails settings holds (Parse.attempt step) := by
  intro state fault after run
  unfold Parse.attempt at run
  split at run
  · cases run
  · rename_i found
    split at run
    · cases run
      exact fails _ _ _ found
    · cases run

theorem fails_iterate {Progress : Type} {round : Progress → Parse (Round Progress Value)}
    (stall : holds stalled) (each : ∀ progress, Fails settings holds (round progress))
    (rounds : Nat) (start : Progress) : Fails settings holds (iterate round rounds start) := by
  induction rounds generalizing start with
  | zero =>
      intro state fault after run
      cases run
      exact stall
  | succ rounds ih =>
      intro state fault after run
      unfold iterate at run
      split at run
      · cases run
      · exact ih _ _ _ _ run
      · rename_i found
        cases run
        exact each _ _ _ _ found

theorem fails_peek (ordinary : ∀ fault : SyntaxError, fault.Ordinary → holds fault) :
    Fails settings holds peek :=
  fun _ fault _ run => ordinary fault (peek_ordinary run)

theorem Fails.nested (deep : ∀ bound offset, settings.limit = some bound →
    holds ⟨.nestingTooDeep bound, .empty offset⟩) {step : Parse Value}
    (fails : Fails settings holds step) : Fails settings holds (Parse.nested step) := by
  intro state fault after run
  have inside (run : (step settings { state with depth := state.depth + 1 }).mapState
      (fun after => { after with depth := after.depth - 1 }) = .error fault after) :
    holds fault := by
    generalize found : step settings { state with depth := state.depth + 1 } = outcome at run
    cases outcome with
    | ok value last => cases run
    | error other last =>
        cases run
        exact fails _ _ _ found
  unfold Parse.nested at run
  dsimp only at run
  split at run
  · exact inside run
  · rename_i bound limited
    split at run
    · cases run
      exact deep bound _ limited
    · exact inside run

/-- Every error of a production is one of scanning, one of its own, or comes
from the limits. -/
theorem Assembled.fails (ordinary : ∀ fault : SyntaxError, fault.Ordinary → holds fault)
    (stall : holds stalled)
    (deep : ∀ bound offset, settings.limit = some bound →
      holds ⟨.nestingTooDeep bound, .empty offset⟩)
    {descent : Descent} (reads : ∀ goal, Fails settings holds (descent.read goal))
    {arrows : Prop} {step : Descent → Parse Value} (assembled : Assembled (.lax arrows) step) :
    Fails settings holds (step descent) := by
  induction assembled with
  | pure value => exact fun _ _ _ run => nomatch run
  | bind _ _ firstIh nextIh => exact firstIh.bind nextIh
  | fail _ isOrdinary =>
      intro state fault after run
      cases run
      exact ordinary _ isOrdinary
  | failAt =>
      intro state fault after run
      cases run
      exact ordinary _ (unexpected_ordinary _ _)
  | look _ ih => exact (fails_peek ordinary).bind fun token => ih token trivial
  | peekSecond => exact fun _ fault _ run => ordinary fault (peekSecond_ordinary run)
  | advance =>
      refine (fails_peek ordinary).bind fun token => ?_
      exact fun _ _ _ run => nomatch run
  | piece =>
      intro state fault after run
      dsimp only at run
      unfold Grammar.piece at run
      split at run <;> cases run
  | settings _ _ ih => exact fun state fault after run => ih settings state fault after run
  | state _ _ ih => exact fun state fault after run => ih state state fault after run
  | read goal => exact reads goal
  | @around _ step shift _ ih =>
      intro state fault after run
      dsimp only at run
      rw [shift.around_eq] at run
      generalize found : step descent settings (shift.enter state) = outcome at run
      cases outcome with
      | ok value last => cases run
      | error other last =>
          cases run
          exact ih _ _ _ found
  | nested _ ih => exact ih.nested deep
  | loop _ _ start ih => exact fails_iterate stall ih _ start
  | chunked _ _ _ _ _ ih =>
      rw [template_pieces]
      exact ih trivial
  | arrow _ _ _ _ _ asyncIh mayIh headIh restIh =>
      have without : Fails settings holds (Pure.pure (none : Option SyntaxTree)) :=
        fun _ _ _ run => nomatch run
      have rejected (offset : Nat) : Fails settings holds (wasRejected offset) :=
        fun _ _ _ run => nomatch run
      have rejects (offset : Nat) : Fails settings holds (reject offset) :=
        fun _ _ _ run => nomatch run
      refine (fails_peek ordinary).bind fun token => asyncIh.bind fun isAsync =>
        (mayIh isAsync).bind fun starts => ?_
      cases starts with
      | false => exact without
      | true =>
          refine (rejected _).bind fun known => ?_
          cases known with
          | true => exact without
          | false =>
              refine (headIh isAsync).attempt.bind fun found => ?_
              cases found with
              | some head =>
                  exact (restIh head.1 head.2).bind fun tree => fun _ _ _ run => nomatch run
              | none => exact (rejects _).bind fun _ => without

/-- Every error of a reader is one of scanning or of a production, or comes from
the limits. -/
theorem script_fails (ordinary : ∀ fault : SyntaxError, fault.Ordinary → holds fault)
    (stall : holds stalled)
    (deep : ∀ bound offset, settings.limit = some bound →
      holds ⟨.nestingTooDeep bound, .empty offset⟩) (steps : Nat) :
    Fails settings holds (script ⟨steps, read steps⟩) := by
  have reads (fewer : Nat) (goal : Goal) : Fails settings holds (read fewer goal) := by
    induction fewer generalizing goal with
    | zero =>
        intro state fault after run
        cases run
        exact stall
    | succ fewer ih =>
        exact Assembled.fails ordinary stall deep ih (produce_assembled goal fun _ => trivial)
  have assembled : Assembled (.lax True) script := script_assembled
  exact assembled.fails ordinary stall deep (reads steps)

end

/-- Without a limit no text is nested too deeply. -/
theorem parseWith_unbounded {settings : Settings} (unbounded : settings.limit = none)
    {fault : SyntaxError} (run : parseWith settings = .error fault) : ¬fault.IsTooDeep := by
  have fails : Fails settings (fun fault => ¬fault.IsTooDeep)
      (script ⟨stepsFor settings.size, read (stepsFor settings.size)⟩) := by
    refine script_fails (fun fault isOrdinary deep => deep.not_ordinary isOrdinary) ?_ ?_ _
    · rintro ⟨bound, cause⟩
      cases cause
    · intro bound offset limited
      rw [unbounded] at limited
      cases limited
  unfold parseWith at run
  dsimp only at run
  split at run
  · cases run
  · rename_i found
    cases run
    exact fails _ _ _ found

end Grammar

/-! ## Rebuilding under two limits -/

section

variable {Label : Type} [Named Label] {source : Text} {tight loose limit : Option Nat}

/-- The fold was ended by the limit, or does not depend on it. -/
def Loosened {Value : Type} (before after : Except TransformError Value) : Prop :=
  (∃ bound, before = .error (.depthExceeded bound)) ∨ after = before

theorem Loosened.bind {Value Other : Type} {before after : Except TransformError Other}
    {next later : Other → Except TransformError Value} (first : Loosened before after)
    (others : ∀ value, Loosened (next value) (later value)) :
    Loosened (before >>= next) (after >>= later) := by
  obtain ⟨bound, rfl⟩ | rfl := first
  · exact .inl ⟨bound, rfl⟩
  · cases after with
    | error fault => exact .inr rfl
    | ok value => exact others value

theorem enter_looser (looser : Looser tight loose) (depth : Nat) (tree : Tree Label) :
    Loosened ((rebuilder source tight).enter depth tree)
      ((rebuilder source loose).enter depth tree) := by
  unfold rebuilder
  dsimp only
  cases tight with
  | none =>
      cases loose with
      | none => exact .inr rfl
      | some bound =>
          obtain ⟨smaller, impossible, -⟩ := looser bound rfl
          cases impossible
  | some smaller =>
      by_cases deep : smaller < depth
      · dsimp only
        rw [if_pos deep]
        exact .inl ⟨smaller, rfl⟩
      · dsimp only
        rw [if_neg deep]
        cases loose with
        | none => exact .inr rfl
        | some bound =>
            obtain ⟨_, same, le⟩ := looser bound rfl
            cases same
            dsimp only
            rw [if_neg (by omega)]
            exact .inr rfl

theorem foldAll_looser {trees : List (Tree Label)} {depth : Nat}
    (each : ∀ tree ∈ trees, Loosened ((rebuilder source tight).fold depth tree)
      ((rebuilder source loose).fold depth tree)) :
    Loosened ((rebuilder source tight).foldAll depth trees)
      ((rebuilder source loose).foldAll depth trees) := by
  induction trees with
  | nil => exact .inr rfl
  | cons tree rest ih =>
      rw [Visitor.foldAll, Visitor.foldAll]
      refine (each tree (by simp)).bind fun value => ?_
      exact (ih fun tree isIn => each tree (by simp [isIn])).bind fun values => .inr rfl

theorem fold_looser (looser : Looser tight loose) (tree : Tree Label) (depth : Nat) :
    Loosened ((rebuilder source tight).fold depth tree)
      ((rebuilder source loose).fold depth tree) := by
  induction tree using Tree.induct generalizing depth with
  | node label span children ih =>
      rw [Visitor.fold_eq, Visitor.fold_eq]
      refine (enter_looser looser depth _).bind fun _ => ?_
      exact (foldAll_looser fun child isChild => ih child isChild (depth + 1)).bind
        fun below => .inr rfl

theorem transformTree_looser {one two : Options} (looser : Looser one.bounds.limit two.bounds.limit)
    (tree : Tree Label) :
    Loosened (transformTree one source tree) (transformTree two source tree) := by
  rw [transformTree_eq, transformTree_eq]
  exact (fold_looser looser tree 0).bind fun fragment => .inr rfl

/-! ## Rebuilding without a limit -/

theorem leave_local {depth : Nat} {tree : Tree Label} {below : List Fragment}
    {fault : TransformError}
    (run : (rebuilder source limit).leave depth tree below = .error fault) :
    ∀ bound, fault ≠ .depthExceeded bound := by
  rintro bound rfl
  change (argumentsOf source tree below).bind (dispatch tree.name) = _ at run
  cases given : argumentsOf source tree below with
  | error other =>
      rw [given] at run
      cases run
      unfold argumentsOf at given
      split at given
      · cases given
      · split at given <;> cases given
  | ok arguments =>
      rw [given] at run
      change dispatch tree.name arguments = _ at run
      unfold dispatch at run
      split at run
      · exact Rule.process_faults run
      · split at run
        · split at run <;> cases run
        · cases run

theorem fold_bounded (tree : Tree Label) (depth : Nat) {bound : Nat}
    (run : (rebuilder source limit).fold depth tree = .error (.depthExceeded bound)) :
    limit = some bound := by
  induction tree using Tree.induct generalizing depth with
  | node label span children ih =>
      rw [Visitor.fold_eq] at run
      cases entered : (rebuilder source limit).enter depth (.node label span children) with
      | error other =>
          rw [entered] at run
          cases run
          unfold rebuilder at entered
          dsimp only at entered
          split at entered
          · split at entered
            · cases entered
              rfl
            · cases entered
          · cases entered
      | ok _ =>
          rw [entered] at run
          cases folded : (rebuilder source limit).foldAll (depth + 1) children with
          | error other =>
              change ((rebuilder source limit).foldAll (depth + 1) children).bind _ = _ at run
              rw [folded] at run
              cases run
              obtain ⟨child, isChild, failed⟩ := Visitor.foldAll_error folded
              exact ih child isChild (depth + 1) failed
          | ok below =>
              change ((rebuilder source limit).foldAll (depth + 1) children).bind _ = _ at run
              rw [folded] at run
              exact absurd rfl (leave_local run bound)

theorem transformTree_unbounded {options : Options} (unbounded : options.bounds.limit = none)
    (tree : Tree Label) (bound : Nat) :
    transformTree options source tree ≠ .error (.depthExceeded bound) := by
  intro run
  rw [transformTree_eq] at run
  cases folded : (rebuilder source options.bounds.limit).fold 0 tree with
  | error fault =>
      rw [folded] at run
      cases run
      have limited := fold_bounded tree 0 folded
      rw [unbounded] at limited
      cases limited
  | ok fragment =>
      rw [folded] at run
      cases fragment <;> cases run

/-! ## Depth -/

/-- No node that is rebuilt lies deeper than the limit. -/
theorem transformCursor_depth {options : Options} {bound : Nat}
    (limited : options.bounds.limit = some bound) {cursor after : Cursor Label}
    {fragment : Fragment} (run : transformCursor options source cursor = .ok (fragment, after)) :
    ∀ entry ∈ cursor.focus.preorder, entry.1 ≤ bound := by
  obtain ⟨folded, -⟩ := Cursor.visit_ok run
  rw [limited] at folded
  intro entry isIn
  obtain ⟨found, entryRun⟩ := Tree.fold_of_listed folded entry isIn
  have entered := Visitor.fold_entered entryRun
  by_contra deep
  change (if bound < entry.1 then Except.error (TransformError.depthExceeded bound)
    else Except.ok ()) = _ at entered
  rw [if_pos (by omega)] at entered
  cases entered

end

/-! ## Whole texts -/

theorem ofSyntaxError_deep {fault : SyntaxError} {bound : Nat} :
    TransformError.ofSyntaxError fault = .depthExceeded bound ↔
      fault.cause = .nestingTooDeep bound := by
  unfold TransformError.ofSyntaxError
  cases fault.cause <;> simp

theorem transform_looser {source : Text} {dialect : Dialect} {tight loose : Bounds}
    (looser : Looser tight.limit loose.limit) :
    Loosened (transform ⟨dialect, tight⟩ source) (transform ⟨dialect, loose⟩ source) := by
  let settings : Settings := .ofOptions ⟨dialect, tight⟩ source
  obtain ⟨fault, run, bound, cause⟩ | same := @parseWith_looser settings _ _ looser
  · refine .inl ⟨bound, ?_⟩
    change Grammar.parse ⟨dialect, tight⟩ source = _ at run
    unfold transform
    rw [run]
    exact congrArg _ (ofSyntaxError_deep.mpr cause)
  · change Grammar.parse ⟨dialect, loose⟩ source = Grammar.parse ⟨dialect, tight⟩ source at same
    unfold transform
    rw [same]
    cases Grammar.parse ⟨dialect, tight⟩ source with
    | error fault => exact .inr rfl
    | ok tree => exact transformTree_looser looser tree

theorem transform_unbounded {source : Text} {options : Options}
    (unbounded : options.bounds.limit = none) (bound : Nat) :
    transform options source ≠ .error (.depthExceeded bound) := by
  intro run
  unfold transform at run
  cases parsed : Grammar.parse options source with
  | error fault =>
      rw [parsed] at run
      have deep := ofSyntaxError_deep.mp (Except.error.inj run)
      exact parseWith_unbounded unbounded parsed ⟨bound, deep⟩
  | ok tree =>
      rw [parsed] at run
      exact transformTree_unbounded unbounded tree bound run

/-- Under a looser limit a text is read and rebuilt as before, unless the
limit before was the reason of an error, and so is a tree of any origin.
Without a limit that error is never met, and under one no node that is rebuilt
lies deeper. -/
theorem limit_only_refuses (dialect : Dialect) (source : Text) (tight loose : Bounds)
    (looser : Looser tight.limit loose.limit) :
    ((∃ fault, Grammar.parse ⟨dialect, tight⟩ source = .error fault ∧ fault.IsTooDeep) ∨
      Grammar.parse ⟨dialect, loose⟩ source = Grammar.parse ⟨dialect, tight⟩ source) ∧
    ((∃ bound, transform ⟨dialect, tight⟩ source = .error (.depthExceeded bound)) ∨
      transform ⟨dialect, loose⟩ source = transform ⟨dialect, tight⟩ source) ∧
    (∀ (Label : Type) [Named Label] (tree : Tree Label),
      (∃ bound, transformTree ⟨dialect, tight⟩ source tree = .error (.depthExceeded bound)) ∨
        transformTree ⟨dialect, loose⟩ source tree =
          transformTree ⟨dialect, tight⟩ source tree) ∧
    (loose.limit = none →
      (∀ fault, Grammar.parse ⟨dialect, loose⟩ source = .error fault → ¬fault.IsTooDeep) ∧
      (∀ bound, transform ⟨dialect, loose⟩ source ≠ .error (.depthExceeded bound)) ∧
      ∀ (Label : Type) [Named Label] (tree : Tree Label) (bound : Nat),
        transformTree ⟨dialect, loose⟩ source tree ≠ .error (.depthExceeded bound)) ∧
    ∀ (Label : Type) [Named Label] (bound : Nat) (cursor after : Cursor Label)
      (fragment : Fragment), tight.limit = some bound →
      transformCursor ⟨dialect, tight⟩ source cursor = .ok (fragment, after) →
      ∀ entry ∈ cursor.focus.preorder, entry.1 ≤ bound := by
  refine ⟨?_, transform_looser looser, ?_, ?_, ?_⟩
  · exact @parseWith_looser (.ofOptions ⟨dialect, tight⟩ source) _ _ looser
  · exact fun Label _ tree => transformTree_looser looser tree
  · intro unbounded
    refine ⟨fun fault run => parseWith_unbounded unbounded run, transform_unbounded unbounded, ?_⟩
    exact fun Label _ tree bound => transformTree_unbounded unbounded tree bound
  · exact fun Label _ bound cursor after fragment limited run => transformCursor_depth limited run

/-- Three levels under a limit of three, and under none. -/
theorem limit_only_refuses_three :
    Looser (some 3) none ∧
      ((∃ fault, Grammar.parse ⟨.script, ⟨some 3, 1, 2⟩⟩ "!x".toList = .error fault ∧
          fault.IsTooDeep) ∨
        Grammar.parse ⟨.script, ⟨none, 1, 2⟩⟩ "!x".toList =
          Grammar.parse ⟨.script, ⟨some 3, 1, 2⟩⟩ "!x".toList) ∧
      (∀ bound, transform ⟨.script, ⟨none, 1, 2⟩⟩ "!x".toList ≠ .error (.depthExceeded bound)) ∧
      ∃ tree fragment after, Grammar.parse ⟨.script, ⟨some 3, 1, 2⟩⟩ "!x".toList = .ok tree ∧
        transformCursor ⟨.script, ⟨some 3, 1, 2⟩⟩ "!x".toList (.ofTree tree) =
          .ok (fragment, after) ∧
        ∀ entry ∈ tree.preorder, entry.1 ≤ 3 := by
  have looser : Looser (some 3) none := nofun
  obtain ⟨reads, -, -, unbounded, depth⟩ :=
    limit_only_refuses .script "!x".toList ⟨some 3, 1, 2⟩ ⟨none, 1, 2⟩ looser
  refine ⟨looser, reads, (unbounded rfl).2.1, ?_⟩
  obtain ⟨tree, parsed⟩ := Grammar.exists_of_isOk ⟨.script, ⟨some 3, 1, 2⟩⟩ "!x".toList
    (by decide +kernel)
  have rebuilt : (transform ⟨.script, ⟨some 3, 1, 2⟩⟩ "!x".toList).isOk = true := by
    decide +kernel
  unfold transform transformTree at rebuilt
  rw [parsed] at rebuilt
  cases run : transformCursor ⟨.script, ⟨some 3, 1, 2⟩⟩ "!x".toList (.ofTree tree) with
  | error fault =>
      dsimp only at rebuilt
      rw [run] at rebuilt
      cases rebuilt
  | ok found => exact ⟨tree, found.1, found.2, parsed, run, depth Kind 3 _ _ _ rfl run⟩

end ScriptTree
