import ScriptTree.Proofs.Grammar.Recall

/-!
# The memory of rejected heads

A head that was rejected at an offset is not tried there a second time.  That
saves work and changes nothing else, where nesting is not bounded.
-/

namespace ScriptTree

namespace Grammar

variable {settings : Settings}

theorem read_moves_recalling (sized : settings.size = Text.size settings.source)
    (rounds steps : Nat) (recalls : Bool) :
    (Descent.mk rounds (read steps)).Moves (settings.recalling recalls) := by
  have same : (settings.recalling recalls).size = Text.size (settings.recalling recalls).source :=
    sized
  exact read_moves same rounds steps

section

variable {tree : SyntaxTree} {fault : SyntaxError} {last : State}

theorem parseWith_ok
    (run : script ⟨stepsFor settings.size, read (stepsFor settings.size)⟩ settings
      (.initial settings.source) = .ok tree last) : parseWith settings = .ok tree := by
  simp only [parseWith, run]

theorem parseWith_error
    (run : script ⟨stepsFor settings.size, read (stepsFor settings.size)⟩ settings
      (.initial settings.source) = .error fault last) : parseWith settings = .error fault := by
  simp only [parseWith, run]

end

/-- A text is read in the same way whether rejected heads are recalled or
not. -/
theorem parseWith_recalling (unbounded : settings.limit = none)
    (sized : settings.size = Text.size settings.source) :
    parseWith (settings.recalling false) = parseWith (settings.recalling true) := by
  let descent : Descent := ⟨stepsFor settings.size, read (stepsFor settings.size)⟩
  let initial : State := .initial settings.source
  have reads (goal : Goal) : Steady settings Set.univ 0 (descent.read goal) :=
    fun _ _ on _ => read_foretells unbounded sized (read_settled sized)
      (read_moves_recalling sized _ _) goal on
  have assembled : Assembled (.lax False) script := script_assembled
  have on : Place.On settings.source initial.point.place := Place.On.first settings.source
  obtain ⟨verdicts, result, -, -, foretold⟩ :=
    assembled.steady unbounded sized reads initial.point initial.scope on (Nat.zero_le _)
  have stands : initial.At settings initial.point initial.scope := .self nofun
  have clear : Clear verdicts initial.rejectedHeads :=
    fun offset known => absurd known List.not_mem_nil
  have forgets := foretold.runs false initial stands fun _ => clear
  have recalls := foretold.runs true initial stands fun _ => clear
  generalize forgetting : script descent (settings.recalling false) initial = one at forgets
  generalize recalling : script descent (settings.recalling true) initial = two at recalls
  cases forgets with
  | ok => cases recalls; rw [parseWith_ok forgetting, parseWith_ok recalling]
  | error => cases recalls; rw [parseWith_error forgetting, parseWith_error recalling]

end Grammar

/-- Recalling rejected heads changes nothing about what a text is read into,
be it a tree or an error, in any dialect and with any nesting. -/
theorem parse_recalls (dialect : Dialect) (redZone segment : Nat) (source : Text) :
    Grammar.parseWith
        { Grammar.Settings.ofOptions ⟨dialect, ⟨none, redZone, segment⟩⟩ source with
          recallsHeads := false } =
      Grammar.parse ⟨dialect, ⟨none, redZone, segment⟩⟩ source := by
  let settings := Grammar.Settings.ofOptions ⟨dialect, ⟨none, redZone, segment⟩⟩ source
  have unbounded : settings.limit = none := rfl
  have sized : settings.size = Text.size settings.source := rfl
  exact Grammar.parseWith_recalling unbounded sized

end ScriptTree
