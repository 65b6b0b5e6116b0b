import ScriptTree.Proofs.Spaced
import ScriptTree.Recognizer.Boundary

/-!
# Where the same line goes on

The same-line marker is meant to be taken only where there is no trivia left
to skip.  It looks for trivia on its own, with a table of spaces that leaves
out the byte order mark.
-/

namespace ScriptTree

namespace Trivia

theorem skip_of_significant {place : Place} (significant : Significant place.rest) :
    skip place = .ok (place, .plain) := by
  obtain ⟨offset, rest⟩ := place
  cases rest with
  | nil => rfl
  | cons first rest =>
      obtain ⟨inLine, notBlank, noComment⟩ := significant first rest rfl
      exact skip_self inLine notBlank (imp_iff_not_or.mp noComment)

/-- Nothing is skipped exactly where neither space nor a comment starts. -/
theorem skip_eq_self_iff {place : Place} :
    skip place = .ok (place, .plain) ↔ Significant place.rest := by
  refine ⟨fun run => ?_, skip_of_significant⟩
  obtain ⟨-, -, -, -, -, significant⟩ := skip_skipped run
  exact significant

end Trivia

/-- The marker declines on every line terminator and on every blank but one. -/
theorem isSkippedSpace_iff {character : Char} :
    isSkippedSpace character = true ↔
      (isNewline character = true ∨ isBlank character = true) ∧ character ≠ '\uFEFF' := by
  constructor
  · intro skipped
    have all : skippedSpaces.all (fun space =>
        (isNewline space || isBlank space) && space != '\uFEFF') = true := by
      decide
    simpa using List.all_eq_true.mp all character (List.contains_iff_mem.mp skipped)
  · rintro ⟨isSpace, noMark⟩
    have listed : character.toNat ∈ spaceCodes :=
      isSpace.elim spaceCodes_of_isNewline spaceCodes_of_isBlank
    have all : ∀ code ∈ spaceCodes,
        Char.ofNat code ≠ '\uFEFF' → isSkippedSpace (Char.ofNat code) = true := by
      decide
    have skipped := all _ listed
    rw [Char.ofNat_toNat] at skipped
    exact skipped noMark

namespace Recognizer

variable {outlook : Outlook} {probe : Probe}

/-- What the marker looks for itself before it is taken. -/
theorem sameLine_clear (fresh : probe.verdict = none)
    (accepts : (sameLine outlook probe).mark? = some .sameLine) :
    probe.current.any isSkippedSpace = false ∧ opensComment probe = false := by
  have declined : probe.mark? ≠ some .sameLine := by simp [Probe.mark?, fresh]
  unfold sameLine at accepts
  split at accepts
  case isTrue => exact absurd accepts declined
  case isFalse clear => simpa using clear

/-- Where the marker is taken, a token starts, unless the byte order mark does. -/
theorem significant_iff_of_sameLine (fresh : probe.verdict = none)
    (accepts : (sameLine outlook probe).mark? = some .sameLine) :
    Trivia.Significant probe.place.rest ↔ probe.current ≠ some '\uFEFF' := by
  obtain ⟨noSpace, noComment⟩ := sameLine_clear fresh accepts
  obtain ⟨⟨offset, rest⟩, size, verdict⟩ := probe
  constructor
  · rintro significant isMark
    obtain ⟨later, rfl⟩ : ∃ later, rest = '\uFEFF' :: later := List.head?_eq_some_iff.mp isMark
    exact absurd (significant _ _ rfl).2.1 (by decide)
  · rintro noMark first later rfl
    have visible : ¬(isNewline first = true ∨ isBlank first = true) := by
      intro isSpace
      have skipped := isSkippedSpace_iff.mpr ⟨isSpace, fun same => noMark (congrArg some same)⟩
      have declines : isSkippedSpace first = false := noSpace
      rw [skipped] at declines
      cases declines
    obtain ⟨inLine, notBlank⟩ := not_or.mp visible
    refine ⟨by simpa using inLine, by simpa using notBlank, ?_⟩
    rintro rfl
    simpa [opensComment, Probe.current, Probe.ahead, Place.current, Place.ahead,
      List.head?_eq_getElem?] using noComment

/-- Where the marker is taken there is no trivia to skip, unless the text goes
on with a byte order mark. -/
theorem sameLine_skip (outlook : Outlook) (source : Text) (offset : Nat)
    (accepts : (sameLine outlook (Probe.ofOffset source offset)).mark? = some .sameLine) :
    Trivia.skip (Place.ofOffset source offset) = .ok (Place.ofOffset source offset, .plain) ↔
      (Place.ofOffset source offset).current ≠ some '\uFEFF' :=
  Trivia.skip_eq_self_iff.trans (significant_iff_of_sameLine rfl accepts)

/-- A slash that starts no comment, behind a character of two bytes. -/
theorem sameLine_skip_slash :
    (sameLine ⟨.plain, [.sameLine]⟩ (Probe.ofOffset "é/1 /".toList 2)).mark? = some .sameLine ∧
      (Trivia.skip (Place.ofOffset "é/1 /".toList 2) =
          .ok (Place.ofOffset "é/1 /".toList 2, .plain) ↔
        (Place.ofOffset "é/1 /".toList 2).current ≠ some '\uFEFF') := by
  have accepts : (sameLine ⟨.plain, [.sameLine]⟩
      (Probe.ofOffset "é/1 /".toList 2)).mark? = some .sameLine := rfl
  exact ⟨accepts, sameLine_skip ⟨.plain, [.sameLine]⟩ "é/1 /".toList 2 accepts⟩

/-- In front of a byte order mark the marker is taken, but there is trivia to
skip. -/
theorem sameLine_byteOrderMark :
    (sameLine ⟨.plain, [.sameLine]⟩ (Probe.ofOffset "return \uFEFF1".toList 7)).mark? =
        some .sameLine ∧
      Trivia.skip (Place.ofOffset "return \uFEFF1".toList 7) = .ok (⟨10, ['1']⟩, .plain) ∧
      Trivia.skip (Place.ofOffset "return \uFEFF1".toList 7) ≠
        .ok (Place.ofOffset "return \uFEFF1".toList 7, .plain) := by
  have skips : Trivia.skip (Place.ofOffset "return \uFEFF1".toList 7) =
      .ok (⟨10, ['1']⟩, .plain) := rfl
  refine ⟨rfl, skips, fun stays => ?_⟩
  rw [skips] at stays
  cases stays

end Recognizer

end ScriptTree
