import ScriptTree.Proofs.Bound
import ScriptTree.Proofs.Grammar.Enough

/-!
# Reading comes to an end

The number of steps that a reader is given depends on the size of the text
only.  It suffices for every text, so that the reader never gives up and would
not answer otherwise with more steps.
-/

namespace ScriptTree

namespace Grammar

variable {settings : Settings}

theorem State.initial_stands : (State.initial settings.source).Stands settings where
  valid _ looked := nomatch looked
  on := Place.On.first settings.source

/-- The statements of a text are read without giving up. -/
theorem script_endures (sized : settings.size = Text.size settings.source) {steps : Nat}
    (enough : stepsFor settings.size ≤ steps) :
    Endures settings steps (script ⟨steps, read steps⟩) := by
  have assembled : Assembled (.lax True) script := script_assembled
  refine assembled.endures sized (read_moves sized steps steps) fun goal => ?_
  intro state last stands _
  have rank := goal.rank_le
  refine read_endures sized steps goal stands ?_
  unfold effort
  unfold stepsFor at enough
  omega

/-- More steps than enough read the statements of a text in the same way. -/
theorem script_more (sized : settings.size = Text.size settings.source) {steps more : Nat}
    (enough : stepsFor settings.size ≤ steps) (le : steps ≤ more) :
    script ⟨more, read more⟩ settings (State.initial settings.source) =
      script ⟨steps, read steps⟩ settings (State.initial settings.source) := by
  have sound : (resumed settings []).Sound := resumed_sound []
  have blind : settings.recallsHeads = true → ([] : List Nat) = [] := fun _ => rfl
  have arrows := (resumed_remembers blind).arrows sound ⟨steps, read steps⟩ ⟨more, read more⟩
  have same : (State.initial settings.source).adding [] = State.initial settings.source := rfl
  have matched := sound.follows (fun goal => read_resumed blind le goal) le (fun _ => rfl)
    (fun _ : True => arrows) script_assembled (State.initial settings.source) _ same.symm
  rcases resumed_same matched with same | ⟨last, gaveUp⟩
  · exact same
  · refine absurd gaveUp (script_endures sized enough _ _ State.initial_stands ?_)
    change settings.size - 0 < steps
    unfold stepsFor at enough
    omega

/-- Giving up is the only error of its kind. -/
theorem parseWith_endures (sized : settings.size = Text.size settings.source)
    {fault : SyntaxError} (run : parseWith settings = .error fault) : fault.cause ≠ .stalled := by
  have fails : Fails settings (fun fault => fault.cause = .stalled → fault = stalled)
      (script ⟨stepsFor settings.size, read (stepsFor settings.size)⟩) := by
    refine script_fails ?_ (fun _ => rfl) (fun _ _ _ cause => nomatch cause) _
    intro fault ordinary cause
    unfold SyntaxError.Ordinary Parse.isFinal at ordinary
    rw [cause] at ordinary
    cases ordinary
  unfold parseWith at run
  dsimp only at run
  split at run
  · cases run
  · rename_i found
    cases run
    intro cause
    rw [fails _ _ _ found cause] at found
    refine script_endures sized le_rfl _ _ State.initial_stands ?_ found
    change settings.size - 0 < stepsFor settings.size
    unfold stepsFor
    omega

end Grammar

/-- Reading any text ends within a number of steps that its size determines,
whatever its dialect, however it may be nested and wherever it is broken off.
The reader does not give up, neither at the end nor in a speculation, since
giving up is final, and with more steps it reads the same. -/
theorem parse_terminates (options : Options) (source : Text) :
    (∀ span, Grammar.parse options source ≠ .error ⟨.stalled, span⟩) ∧
      ∀ more,
        Grammar.script
            ⟨Grammar.stepsFor (Text.size source) + more,
              Grammar.read (Grammar.stepsFor (Text.size source) + more)⟩
            (.ofOptions options source) (.initial source) =
          Grammar.script
            ⟨Grammar.stepsFor (Text.size source),
              Grammar.read (Grammar.stepsFor (Text.size source))⟩
            (.ofOptions options source) (.initial source) := by
  have sized : (Grammar.Settings.ofOptions options source).size = Text.size source := rfl
  constructor
  · intro span run
    exact Grammar.parseWith_endures sized run rfl
  · intro more
    exact Grammar.script_more sized le_rfl (Nat.le_add_right _ more)

end ScriptTree
