import Mathlib.Combinatorics.Enumerative.DyckWord
import ScriptTree.Proofs.Scan
import ScriptTree.Rebuild.Terminal

/-!
# Values of patterns

A pattern that is scanned is cut at the slash that closed it, for no slash can
stand among its flags.  What was scanned closes every class it opens and hides
a character behind every backslash, so only its flags and its groups are left
to be checked.
-/

namespace ScriptTree

namespace Literal

variable {pattern rest body flags earlier : Text} {steps : List DyckStep} {groups : Nat}

/-! ## Where a literal is cut -/

theorem splitLast?_none {mark : Char} {text : Text} (absent : mark ∉ text) :
    splitLast? mark text = none := by
  induction text with
  | nil => rfl
  | cons character rest ih =>
      rw [List.mem_cons, not_or] at absent
      rw [splitLast?, ih absent.2]
      exact if_neg (Ne.symm absent.1)

theorem splitLast?_append {mark : Char} (before : Text) {after : Text} (absent : mark ∉ after) :
    splitLast? mark (before ++ mark :: after) = some (before, after) := by
  induction before with
  | nil =>
      rw [List.nil_append, splitLast?, splitLast?_none absent]
      exact if_pos rfl
  | cons character rest ih => rw [List.cons_append, splitLast?, ih]

/-! ## Groups -/

/-- What stands between the brackets of a class: no bracket closes it unless a
backslash hides the bracket. -/
inductive IsClassBody : Text → Prop where
  | none : IsClassBody []
  | escape (hidden : Char) {rest : Text} (later : IsClassBody rest) :
      IsClassBody ('\\' :: hidden :: rest)
  | plain {character : Char} {rest : Text} (notBackslash : character ≠ '\\')
      (notClosing : character ≠ ']') (later : IsClassBody rest) : IsClassBody (character :: rest)

/-- The parentheses of a pattern that are neither escaped nor in a class, as
steps up and down. -/
inductive Groups : Text → List DyckStep → Prop where
  | none : Groups [] []
  | escape (hidden : Char) {rest : Text} {steps : List DyckStep} (later : Groups rest steps) :
      Groups ('\\' :: hidden :: rest) steps
  | brackets {body rest : Text} {steps : List DyckStep} (isBody : IsClassBody body)
      (later : Groups rest steps) : Groups ('[' :: (body ++ ']' :: rest)) steps
  | opens {rest : Text} {steps : List DyckStep} (later : Groups rest steps) :
      Groups ('(' :: rest) (.U :: steps)
  | closes {rest : Text} {steps : List DyckStep} (later : Groups rest steps) :
      Groups (')' :: rest) (.D :: steps)
  | plain {character : Char} {rest : Text} {steps : List DyckStep} (notBackslash : character ≠ '\\')
      (notBracket : character ≠ '[') (notOpening : character ≠ '(') (notClosing : character ≠ ')')
      (later : Groups rest steps) : Groups (character :: rest) steps

/-- Every class and escape is complete, from a place inside or outside of a
class. -/
def CompleteFrom : Bool → Text → Prop
  | false, text => ∃ steps, Groups text steps
  | true, text => ∃ body rest steps, text = body ++ ']' :: rest ∧ IsClassBody body ∧
      Groups rest steps

/-- What the scanner accepts is made of escapes, classes and parentheses. -/
theorem complete_of_isPattern {inClass : Bool} {text : Text}
    (isPattern : Lexeme.IsPattern inClass text) : CompleteFrom inClass text := by
  induction isPattern with
  | none => exact ⟨[], .none⟩
  | @hidden inClass hidden rest inLine later ih =>
      cases inClass with
      | false =>
          obtain ⟨steps, groups⟩ := ih
          exact ⟨steps, .escape hidden groups⟩
      | true =>
          obtain ⟨body, behind, steps, rfl, isBody, groups⟩ := ih
          exact ⟨_, behind, steps, rfl, .escape hidden isBody, groups⟩
  | @opens inClass rest later ih =>
      obtain ⟨body, behind, steps, rfl, isBody, groups⟩ := ih
      cases inClass with
      | false => exact ⟨steps, .brackets isBody groups⟩
      | true =>
          exact ⟨'[' :: body, behind, steps, rfl, .plain (by decide) (by decide) isBody, groups⟩
  | @closes inClass rest later ih =>
      obtain ⟨steps, groups⟩ := ih
      cases inClass with
      | false =>
          exact ⟨steps, .plain (by decide) (by decide) (by decide) (by decide) groups⟩
      | true => exact ⟨[], rest, steps, rfl, .none, groups⟩
  | @plain inClass character rest notBackslash inLine notOpening notClosing notSlash later ih =>
      cases inClass with
      | false =>
          obtain ⟨steps, groups⟩ := ih
          by_cases opens : character = '('
          · exact ⟨.U :: steps, opens ▸ .opens groups⟩
          by_cases closes : character = ')'
          · exact ⟨.D :: steps, closes ▸ .closes groups⟩
          exact ⟨steps, .plain notBackslash notOpening opens closes groups⟩
      | true =>
          obtain ⟨body, behind, steps, rfl, isBody, groups⟩ := ih
          exact ⟨_, behind, steps, rfl, .plain notBackslash notClosing isBody, groups⟩

def checkSteps : Nat → List DyckStep → Except LiteralFlaw Unit
  | groups, [] => if 0 < groups then .error .unterminatedGroup else .ok ()
  | groups, .U :: steps => checkSteps (groups + 1) steps
  | 0, .D :: _ => .error .unmatchedParen
  | groups + 1, .D :: steps => checkSteps groups steps

section

variable {character : Char} (notBackslash : character ≠ '\\') (groups : Nat) (rest : Text)

include notBackslash

theorem checkPatternFrom_inside :
    checkPatternFrom groups true (character :: rest) =
      checkPatternFrom groups (character != ']') rest := by
  rw [checkPatternFrom]
  · exact fun same => absurd same notBackslash
  · exact fun _ _ same => absurd same notBackslash

theorem checkPatternFrom_outside :
    checkPatternFrom groups false (character :: rest) =
      if character = '[' then checkPatternFrom groups true rest
      else if character = '(' then checkPatternFrom (groups + 1) false rest
      else if character = ')' then
        match groups with
        | 0 => .error .unmatchedParen
        | groups + 1 => checkPatternFrom groups false rest
      else checkPatternFrom groups false rest := by
  cases groups with
  | zero =>
      rw [checkPatternFrom]
      · exact fun same => absurd same notBackslash
      · exact fun _ _ same => absurd same notBackslash
  | succ groups =>
      rw [checkPatternFrom]
      · exact fun same => absurd same notBackslash
      · exact fun _ _ same => absurd same notBackslash

end

/-- A class is passed over. -/
theorem IsClassBody.checkPatternFrom_eq (isBody : IsClassBody body) :
    checkPatternFrom groups true (body ++ ']' :: rest) = checkPatternFrom groups false rest := by
  induction isBody with
  | none => exact checkPatternFrom_inside (by decide) groups rest
  | escape hidden later ih => rw [List.cons_append, List.cons_append, checkPatternFrom, ih]
  | @plain character rest notBackslash notClosing later ih =>
      rw [List.cons_append, checkPatternFrom_inside notBackslash, bne_iff_ne.mpr notClosing, ih]

/-- The check of a pattern counts its groups. -/
theorem Groups.checkPatternFrom_eq (isGrouped : Groups pattern steps) (groups : Nat) :
    checkPatternFrom groups false pattern = checkSteps groups steps := by
  induction isGrouped generalizing groups with
  | none => rfl
  | escape hidden later ih => rw [checkPatternFrom, ih]
  | brackets isBody later ih =>
      rw [checkPatternFrom_outside (by decide), if_pos rfl, isBody.checkPatternFrom_eq, ih]
  | opens later ih =>
      rw [checkPatternFrom_outside (by decide), if_neg (by decide), if_pos rfl, ih, checkSteps]
  | closes later ih =>
      rw [checkPatternFrom_outside (by decide), if_neg (by decide), if_neg (by decide), if_pos rfl]
      cases groups with
      | zero => rfl
      | succ groups => exact ih groups
  | plain notBackslash notBracket notOpening notClosing later ih =>
      rw [checkPatternFrom_outside notBackslash, if_neg notBracket, if_neg notOpening,
        if_neg notClosing, ih]

/-- The steps are accepted if they never go below the ground and end there. -/
theorem checkSteps_ok_iff (groups : Nat) (steps : List DyckStep) :
    checkSteps groups steps = .ok () ↔
      groups + steps.count .U = steps.count .D ∧
        ∀ index, (steps.take index).count .D ≤ groups + (steps.take index).count .U := by
  induction steps generalizing groups with
  | nil => cases groups <;> simp [checkSteps]
  | cons step steps ih =>
      have behind : (∀ index, ((step :: steps).take index).count .D ≤
            groups + ((step :: steps).take index).count .U) ↔
          ∀ index, (step :: steps.take index).count .D ≤
            groups + (step :: steps.take index).count .U := by
        constructor
        · intro stays index
          exact stays (index + 1)
        · intro stays index
          cases index with
          | zero => simp
          | succ index => exact stays index
      rw [behind]
      cases step with
      | U =>
          rw [checkSteps, ih]
          exact and_congr (by simp; omega) (forall_congr' fun index => by simp; omega)
      | D =>
          cases groups with
          | zero =>
              refine iff_of_false nofun fun accepted => ?_
              simpa using accepted.2 0
          | succ groups =>
              rw [checkSteps, ih]
              exact and_congr (by simp; omega) (forall_congr' fun index => by simp; omega)

theorem checkSteps_flaw {flaw : LiteralFlaw} (run : checkSteps groups steps = .error flaw) :
    flaw = .unmatchedParen ∨ flaw = .unterminatedGroup := by
  fun_induction checkSteps groups steps with
  | case1 => exact .inr (Except.error.inj run).symm
  | case2 => cases run
  | case3 groups steps ih => exact ih run
  | case4 => exact .inl (Except.error.inj run).symm
  | case5 groups steps ih => exact ih run

/-- The groups of a pattern are balanced if their steps make a Dyck word. -/
theorem checkSteps_ok_iff_dyckWord (steps : List DyckStep) :
    checkSteps 0 steps = .ok () ↔ ∃ word : DyckWord, word.toList = steps := by
  rw [checkSteps_ok_iff]
  constructor
  · rintro ⟨even, stays⟩
    exact ⟨⟨steps, by simpa using even, by simpa using stays⟩, rfl⟩
  · rintro ⟨word, rfl⟩
    exact ⟨by simpa using word.count_U_eq_count_D, by simpa using word.count_D_le_count_U⟩

/-! ## Flags -/

/-- Flags that can stand behind a pattern. -/
structure AllowedFlags (flags : Text) : Prop where
  known : ∀ flag ∈ flags, flag ∈ knownFlags
  distinct : flags.Nodup
  exclusive : ¬('u' ∈ flags ∧ 'v' ∈ flags)

theorem checkFlagsAfter_ok_iff (earlier flags : Text) :
    checkFlagsAfter earlier flags = .ok () ↔
      (∀ flag ∈ flags, flag ∈ knownFlags ∧ flag ∉ earlier) ∧ flags.Nodup := by
  induction flags generalizing earlier with
  | nil => simp [checkFlagsAfter]
  | cons flag rest ih =>
      rw [checkFlagsAfter]
      by_cases isKnown : flag ∈ knownFlags
      · by_cases repeats : flag ∈ earlier
        · simp [isKnown, repeats]
        · simp only [List.contains_iff_mem.mpr isKnown, Bool.not_true, Bool.false_eq_true, if_false,
            List.contains_iff_mem, repeats, ih, List.mem_cons, not_or, List.nodup_cons,
            forall_eq_or_imp, isKnown, not_false_eq_true, and_self, true_and]
          constructor
          · rintro ⟨later, distinct⟩
            exact ⟨fun other isIn => ⟨(later other isIn).1, (later other isIn).2.2⟩,
              fun isIn => (later flag isIn).2.1 rfl, distinct⟩
          · rintro ⟨later, fresh, distinct⟩
            refine ⟨fun other isIn => ⟨(later other isIn).1, ?_, (later other isIn).2⟩, distinct⟩
            rintro rfl
            exact fresh isIn
      · simp [isKnown]

theorem checkFlags_ok_iff (flags : Text) : checkFlags flags = .ok () ↔ AllowedFlags flags := by
  have checked := checkFlagsAfter_ok_iff [] flags
  unfold checkFlags
  cases found : checkFlagsAfter [] flags with
  | error flaw =>
      rw [found] at checked
      refine iff_of_false nofun fun allowed => ?_
      have known (flag : Char) (isIn : flag ∈ flags) : flag ∈ knownFlags ∧ flag ∉ [] :=
        ⟨allowed.known flag isIn, List.not_mem_nil⟩
      exact nomatch checked.mpr ⟨known, allowed.distinct⟩
  | ok =>
      obtain ⟨known, distinct⟩ := checked.mp found
      change (if (flags.contains 'u' && flags.contains 'v') = true then _ else _) = _ ↔ _
      simp only [Bool.and_eq_true, List.contains_iff_mem]
      by_cases both : 'u' ∈ flags ∧ 'v' ∈ flags
      · rw [if_pos both]
        exact iff_of_false nofun fun allowed => allowed.exclusive both
      · rw [if_neg both]
        exact iff_of_true rfl ⟨fun flag isIn => (known flag isIn).1, distinct, both⟩

theorem checkFlagsAfter_flaw {flaw : LiteralFlaw}
    (run : checkFlagsAfter earlier flags = .error flaw) :
    ∃ flag, flaw = .unknownFlag flag ∨ flaw = .repeatedFlag flag := by
  induction flags generalizing earlier with
  | nil => cases run
  | cons flag rest ih =>
      rw [checkFlagsAfter] at run
      split at run
      · exact ⟨flag, .inl (Except.error.inj run).symm⟩
      · split at run
        · exact ⟨flag, .inr (Except.error.inj run).symm⟩
        · exact ih run

theorem checkFlags_flaw {flaw : LiteralFlaw} (run : checkFlags flags = .error flaw) :
    flaw = .exclusiveFlags ∨ ∃ flag, flaw = .unknownFlag flag ∨ flaw = .repeatedFlag flag := by
  unfold checkFlags at run
  cases found : checkFlagsAfter [] flags with
  | error other =>
      rw [found] at run
      cases run
      exact .inr (checkFlagsAfter_flaw found)
  | ok =>
      rw [found] at run
      change (if (flags.contains 'u' && flags.contains 'v') = true then _ else _) = _ at run
      split at run
      · exact .inl (Except.error.inj run).symm
      · cases run

/-! ## The value of a literal -/

/-- What a scanned pattern cannot be blamed for. -/
def scannedFlaws : List LiteralFlaw :=
  [.missingSlashes, .emptyPattern, .danglingEscape, .unterminatedClass]

section

variable (nonempty : pattern ≠ []) (isGrouped : Groups pattern steps) (absent : '/' ∉ flags)

include nonempty isGrouped absent

theorem regExpValue_eq :
    regExpValue ('/' :: (pattern ++ '/' :: flags)) = (do
      checkFlags flags
      checkSteps 0 steps
      return .regExp (String.ofList pattern) (String.ofList flags)) := by
  have filled : pattern.isEmpty = false := by simpa using nonempty
  unfold regExpValue
  rw [splitPattern?, splitLast?_append pattern absent]
  simp only [checkPattern, filled, Bool.false_eq_true, if_false, isGrouped.checkPatternFrom_eq]

theorem regExpValue_ok_iff (value : LiteralValue) :
    regExpValue ('/' :: (pattern ++ '/' :: flags)) = .ok value ↔
      AllowedFlags flags ∧ (∃ word : DyckWord, Groups pattern word.toList) ∧
        value = .regExp (String.ofList pattern) (String.ofList flags) := by
  constructor
  · intro run
    rw [regExpValue_eq nonempty isGrouped absent] at run
    cases flagged : checkFlags flags with
    | error flaw =>
        rw [flagged] at run
        cases run
    | ok =>
        cases counted : checkSteps 0 steps with
        | error flaw =>
            rw [flagged, counted] at run
            cases run
        | ok =>
            rw [flagged, counted] at run
            obtain ⟨word, same⟩ := (checkSteps_ok_iff_dyckWord steps).mp counted
            exact ⟨(checkFlags_ok_iff flags).mp flagged, ⟨word, same ▸ isGrouped⟩,
              (Except.ok.inj run).symm⟩
  · rintro ⟨allowed, ⟨word, balanced⟩, rfl⟩
    have flagged := (checkFlags_ok_iff flags).mpr allowed
    have counted := (checkSteps_ok_iff_dyckWord word.toList).mpr ⟨word, rfl⟩
    rw [regExpValue_eq nonempty balanced absent, flagged, counted]
    rfl

theorem regExpValue_flaw {flaw : LiteralFlaw}
    (run : regExpValue ('/' :: (pattern ++ '/' :: flags)) = .error flaw) :
    flaw ∉ scannedFlaws := by
  rw [regExpValue_eq nonempty isGrouped absent] at run
  cases flagged : checkFlags flags with
  | error other =>
      rw [flagged] at run
      cases run
      obtain rfl | ⟨flag, rfl | rfl⟩ := checkFlags_flaw flagged
      all_goals simp [scannedFlaws]
  | ok =>
      rw [flagged] at run
      cases counted : checkSteps 0 steps with
      | error other =>
          rw [counted] at run
          cases run
          obtain rfl | rfl := checkSteps_flaw counted
          all_goals simp [scannedFlaws]
      | ok =>
          rw [counted] at run
          cases run

end

end Literal

namespace Token

theorem IsLexeme.slash {dialect : Dialect} {patternAllowed : Bool} {start stop : Place}
    {first : Char} {kind : TokenKind}
    (isLexeme : IsLexeme dialect patternAllowed start first kind stop)
    (isPattern : kind = .pattern) : first = '/' := by
  cases isLexeme with
  | word isName =>
      rcases wordKind_cases dialect (start.rest.takeWhile isNamePart) with
        isIdentifier | ⟨keyword, isKeyword⟩
      · cases isIdentifier.symm.trans isPattern
      · cases isKeyword.symm.trans isPattern
  | pattern _ _ isSlash => exact isSlash
  | number | string | sign => cases isPattern

/-- A scanned pattern starts with a slash, and with no second one. -/
theorem scan_slash {dialect : Dialect} {place : Place} {patternAllowed : Bool} {token : Token}
    (run : scan dialect place patternAllowed = .ok token) (isPattern : token.kind = .pattern) :
    ∃ rest, token.start.rest = '/' :: rest ∧ rest.head? ≠ some '/' ∧
      Lexeme.pattern token.start = .ok token.stop := by
  obtain ⟨first, rest, starts, lexed⟩ := scan_lexeme run (by simp [isEnd, isPattern])
  have isLexeme := lexeme_isLexeme lexed
  have read := isLexeme.readAs
  rw [isPattern] at read
  obtain rfl := isLexeme.slash isPattern
  obtain ⟨marks, skipped, -, -, -, significant⟩ := Trivia.skip_skipped (scan_scanned run).skipped
  exact ⟨rest, starts, ((significant _ _ starts).2.2 rfl).1, read⟩

/-- The parts of a scanned pattern, of which the closing slash ends the
first. -/
theorem scan_isPattern {dialect : Dialect} {place : Place} {patternAllowed : Bool} {token : Token}
    (run : scan dialect place patternAllowed = .ok token) (isPattern : token.kind = .pattern) :
    ∃ pattern flags close, token.text = '/' :: (pattern ++ '/' :: flags) ∧
      Lexeme.closingSlash false token.start.step.rest token.start.step.offset = .ok close ∧
      token.start.Reaches ('/' :: (pattern ++ ['/'])) close ∧
      pattern ≠ [] ∧ Lexeme.IsPattern false pattern ∧ '/' ∉ flags := by
  obtain ⟨rest, starts, notComment, read⟩ := scan_slash run isPattern
  unfold Lexeme.pattern at read
  split at read
  · rename_i close closed
    obtain ⟨pattern, form, toClose⟩ := Lexeme.closingSlash_isPattern closed
    have covered := (Place.reaches_step starts).trans toClose
    have whole := covered.trans (Place.reaches_skipWhile close isNamePart)
    rw [Except.ok.inj read] at whole
    refine ⟨pattern, close.rest.takeWhile isNamePart, close, ?_, closed, covered, ?_, form, ?_⟩
    · simpa using (scan_scanned run).covers.text_unique whole
    · rintro rfl
      have twice := covered.rest
      rw [starts] at twice
      exact notComment (by simpa using congrArg List.head? (List.cons.inj twice).2)
    · intro isIn
      have isPart : isNamePart '/' = true := List.mem_takeWhile_imp isIn
      revert isPart
      decide
  · cases read

/-- A pattern that is scanned is cut at the slash that closed it.  It has a
value if and only if its flags are allowed and its groups are balanced. -/
theorem scan_pattern_value {dialect : Dialect} {place : Place} {patternAllowed : Bool}
    {token : Token} (run : scan dialect place patternAllowed = .ok token)
    (isPattern : token.kind = .pattern) :
    ∃ pattern flags close, token.text = '/' :: (pattern ++ '/' :: flags) ∧
      Lexeme.closingSlash false token.start.step.rest token.start.step.offset = .ok close ∧
      token.start.Reaches ('/' :: (pattern ++ ['/'])) close ∧
      Literal.splitPattern? token.text = some (pattern, flags) ∧
      (∀ literal,
        Rebuild.decodeLiteral Literal.regExpValue (String.ofList token.text) = .ok literal ↔
          Literal.AllowedFlags flags ∧
            (∃ word : DyckWord, Literal.Groups pattern word.toList) ∧
            literal =
              ⟨.regExp (String.ofList pattern) (String.ofList flags), String.ofList token.text⟩) ∧
      ∀ fault,
        Rebuild.decodeLiteral Literal.regExpValue (String.ofList token.text) = .error fault →
          ∃ flaw, fault = .literal (String.ofList token.text) flaw ∧
            flaw ∉ Literal.scannedFlaws := by
  obtain ⟨pattern, flags, close, spelled, closed, covered, nonempty, form, absent⟩ :=
    scan_isPattern run isPattern
  obtain ⟨steps, isGrouped⟩ := Literal.complete_of_isPattern form
  have accepted := Literal.regExpValue_ok_iff nonempty isGrouped absent
  rw [← spelled] at accepted
  have blamed {flaw : LiteralFlaw} (run : Literal.regExpValue token.text = .error flaw) :
      flaw ∉ Literal.scannedFlaws := by
    rw [spelled] at run
    exact Literal.regExpValue_flaw nonempty isGrouped absent run
  have cut : Literal.splitPattern? token.text = some (pattern, flags) := by
    rw [spelled]
    exact Literal.splitLast?_append pattern absent
  refine ⟨pattern, flags, close, spelled, closed, covered, cut, ?_⟩
  unfold Rebuild.decodeLiteral
  rw [String.toList_ofList]
  cases found : Literal.regExpValue token.text with
  | ok value =>
      obtain ⟨allowed, balanced, rfl⟩ := (accepted value).mp found
      refine ⟨fun literal => ⟨fun run => ⟨allowed, balanced, (Except.ok.inj run).symm⟩, ?_⟩, nofun⟩
      rintro ⟨-, -, rfl⟩
      rfl
  | error flaw =>
      refine ⟨fun literal => iff_of_false nofun ?_, fun fault run => ?_⟩
      · rintro ⟨allowed, balanced, -⟩
        rw [(accepted _).mpr ⟨allowed, balanced, rfl⟩] at found
        cases found
      · exact ⟨flaw, (Except.error.inj run).symm, blamed found⟩

/-- Brackets and backslashes hide a slash and parentheses. -/
theorem scan_pattern_value_hidden :
    ∃ token pattern flags,
      scan .script (Place.first " /(?:[(/]|\\)(a))+/gu;".toList) true = .ok token ∧
      token.kind = .pattern ∧ Literal.splitPattern? token.text = some (pattern, flags) ∧
      Literal.AllowedFlags flags ∧ ∃ word : DyckWord, Literal.Groups pattern word.toList := by
  have run : ∃ token,
      scan .script (Place.first " /(?:[(/]|\\)(a))+/gu;".toList) true = .ok token ∧
        token.kind = .pattern ∧
        Rebuild.decodeLiteral Literal.regExpValue (String.ofList token.text) =
          .ok ⟨.regExp "(?:[(/]|\\)(a))+" "gu", String.ofList token.text⟩ := ⟨_, rfl, rfl, rfl⟩
  obtain ⟨token, run, isPattern, decoded⟩ := run
  obtain ⟨pattern, flags, close, -, -, -, cut, value, -⟩ := scan_pattern_value run isPattern
  obtain ⟨allowed, balanced, -⟩ := (value _).mp decoded
  exact ⟨token, pattern, flags, run, isPattern, cut, allowed, balanced⟩

end Token

end ScriptTree
