import ScriptTree.Proofs.Text
import ScriptTree.Recognizer.Template

/-!
# What the chunks of a template cover

Every chunk covers at least one character and ends at a character boundary,
but never between a carriage return and a line feed.  The opening of a hole
and the closing backtick cover their spellings.  A chunk of plain text is cut
from what stands before the next of these marks, and not behind a backslash
that hides a character.
-/

namespace ScriptTree

namespace Recognizer

/-! ## Plain text -/

/-- The text before the first mark that no backslash hides, where a mark is a
backtick or the opening of a hole. -/
def plainText : Text → Text
  | [] => []
  | ['\\'] => ['\\']
  | '\\' :: hidden :: rest => '\\' :: hidden :: plainText rest
  | '$' :: '\x7b' :: _ => []
  | character :: rest => if character = '\x60' then [] else character :: plainText rest

theorem plainText_cons {character : Char} {rest : Text} (notBackslash : character ≠ '\\')
    (notBacktick : character ≠ '\x60')
    (noHole : character = '$' → rest.head? ≠ some '\x7b') :
    plainText (character :: rest) = character :: plainText rest := by
  rw [plainText, if_neg notBacktick]
  · exact fun same => absurd same notBackslash
  · exact fun _ _ same => absurd same notBackslash
  · rintro more rfl rfl
    exact noHole rfl rfl

/-- Every backslash hides a character. -/
inductive Complete : Text → Prop where
  | none : Complete []
  | plain {character : Char} {rest : Text} (notBackslash : character ≠ '\\')
      (later : Complete rest) : Complete (character :: rest)
  | escape {hidden : Char} {rest : Text} (later : Complete rest) :
      Complete ('\\' :: hidden :: rest)

theorem Complete.tail {first : Char} {rest : Text} (complete : Complete (first :: rest))
    (notBackslash : first ≠ '\\') : Complete rest := by
  cases complete with
  | plain _ later => exact later
  | escape => exact absurd rfl notBackslash

theorem Complete.append {first second : Text} (complete : Complete first)
    (further : Complete second) : Complete (first ++ second) := by
  induction complete with
  | none => exact further
  | plain notBackslash later ih => exact .plain notBackslash ih
  | escape later ih => exact .escape ih

/-! ## Chunks -/

structure Chunk (place : Place) (mark : Mark) (text : Text) (later : Place) : Prop where
  covers : place.Reaches text later
  nonempty : text ≠ []
  spelled : match mark with
    | .holeOpen => text = ['$', '\x7b']
    | .templateEnd => text = ['\x60']
    | _ => True
  /-- No line break of two characters is cut in two behind the chunk. -/
  seam : text.getLast? = some '\r' → later.rest.head? ≠ some '\n'

def Cut (whole : Text) (mark : Mark) (chunk later : Text) : Prop :=
  match mark with
  | .templateText =>
      plainText whole = chunk ++ plainText later ∧ (Complete chunk ∨ later = [])
  | .holeOpen | .templateEnd => plainText whole = []
  | _ => False

/-- What is known in the middle of a run of plain text: the characters passed
so far, whether the last is a dollar sign, and whether there are any. -/
structure Running (passed : Text) (afterDollar : Bool) (scanned : Nat) : Prop where
  started : passed = [] ↔ scanned = 0
  dollar : afterDollar = true → ∃ before, passed = before ++ ['$'] ∧ (before = [] ↔ scanned = 1)

namespace Running

theorem start : Running [] false 0 :=
  ⟨by simp, nofun⟩

theorem escape {passed : Text} {afterDollar : Bool} {scanned : Nat}
    (_ : Running passed afterDollar scanned) (hidden : Char) :
    Running (passed ++ ['\\', hidden]) false (scanned + 1) :=
  ⟨by simp, nofun⟩

theorem next {passed : Text} {afterDollar : Bool} {scanned : Nat}
    (running : Running passed afterDollar scanned) (character : Char) :
    Running (passed ++ [character]) (character == '$') (scanned + 1) := by
  refine ⟨by simp, fun isDollar => ⟨passed, by simpa using isDollar, ?_⟩⟩
  simpa using running.started

end Running

/-- What the characters passed so far tell of the plain text of the whole.  A
dollar sign at their end may turn out to belong to a mark. -/
structure Passing (whole passed : Text) (afterDollar : Bool) (text : Text) : Prop where
  complete : Complete passed
  plain : (afterDollar = true → text.head? ≠ some '\x7b') →
    plainText whole = passed ++ plainText text
  dollar : afterDollar = true → ∃ before, passed = before ++ ['$'] ∧ Complete before ∧
    plainText whole = before ++ plainText ('$' :: text)

namespace Passing

variable {whole passed rest : Text} {afterDollar : Bool}

theorem start (whole : Text) : Passing whole [] false whole :=
  ⟨.none, fun _ => rfl, nofun⟩

theorem escape {hidden : Char}
    (passing : Passing whole passed afterDollar ('\\' :: hidden :: rest)) :
    Passing whole (passed ++ ['\\', hidden]) false rest := by
  refine ⟨passing.complete.append (.escape .none), fun _ => ?_, nofun⟩
  rw [passing.plain (by simp), plainText]
  simp

theorem next {character : Char} (passing : Passing whole passed afterDollar (character :: rest))
    (notBackslash : character ≠ '\\') (notBacktick : character ≠ '\x60')
    (noHole : ¬(character = '\x7b' ∧ afterDollar = true)) :
    Passing whole (passed ++ [character]) (character == '$') rest := by
  have complete := passing.complete
  have plain := passing.plain fun isDollar opens => noHole ⟨by simpa using opens, isDollar⟩
  refine ⟨complete.append (.plain notBackslash .none), fun noHole => ?_, fun isDollar => ?_⟩
  · rw [plain, plainText_cons notBackslash notBacktick fun isDollar => noHole (by simp [isDollar])]
    simp
  · obtain rfl : character = '$' := by simpa using isDollar
    exact ⟨passed, rfl, complete, plain⟩

end Passing

variable {source : Text} {place : Place}

private theorem shifted_forward {current later : Place} {verdict : Option Verdict} {text : Text}
    (on : Place.On source current) (reaches : current.Reaches text later) :
    (Probe.mk current (Text.size source) verdict).shifted (Text.size text) = later.offset := by
  have inside := (on.after reaches).offset_add
  have offset := reaches.offset
  unfold Probe.shifted
  simp only
  split <;> omega

private theorem shifted_back {current earlier : Place} {verdict : Option Verdict} {text : Text}
    (on : Place.On source current) (reaches : earlier.Reaches text current) :
    (Probe.mk current (Text.size source) verdict).shifted (-(Text.size text)) =
      earlier.offset := by
  have inside := on.offset_add
  have offset := reaches.offset
  unfold Probe.shifted
  simp only
  split <;> omega

theorem templateRun_chunk {passed text : Text} {offset scanned stop : Nat} {afterDollar : Bool}
    {mark : Mark} (on : Place.On source place) (reaches : place.Reaches passed ⟨offset, text⟩)
    (running : Running passed afterDollar scanned)
    (passing : Passing place.rest passed afterDollar text)
    (run : (templateRun (Text.size source) text offset afterDollar scanned).verdict =
      some ⟨mark, stop⟩) :
    ∃ chunk later, Chunk place mark chunk later ∧ Cut place.rest mark chunk later.rest ∧
      later.offset = stop := by
  fun_induction templateRun (Text.size source) text offset afterDollar scanned
    generalizing passed with
  | case1 => cases run
  | case2 offset afterDollar scanned probe =>
      rename_i more
      simp only [Probe.accept, Option.some.injEq, Verdict.mk.injEq] at run
      obtain ⟨rfl, rfl⟩ := run
      refine ⟨passed, _, ⟨reaches, fun none => more (running.started.mp none), trivial, by simp⟩,
        ⟨passing.plain (by simp), .inr rfl⟩, ?_⟩
      exact (shifted_forward (on.after reaches) (.refl _)).symm
  | case3 offset afterDollar scanned =>
      simp only [Probe.accept, Option.some.injEq, Verdict.mk.injEq] at run
      obtain ⟨rfl, rfl⟩ := run
      have further := reaches.trans (Place.reaches_cons (.refl _))
      refine ⟨_, _, ⟨further, by simp, trivial, by simp⟩, ⟨?_, .inr rfl⟩, ?_⟩
      · rw [passing.plain (by simp)]
        simp [plainText]
      exact (shifted_forward (on.after further) (.refl _)).symm
  | case4 hidden rest offset afterDollar scanned ih =>
      exact ih (reaches.trans (Place.reaches_cons (Place.reaches_cons (.refl _))))
        (running.escape hidden) passing.escape run
  | case5 rest offset afterDollar =>
      simp only [Probe.accept, Option.some.injEq, Verdict.mk.injEq] at run
      obtain ⟨rfl, rfl⟩ := run
      obtain rfl := running.started.mpr rfl
      have backtick : (Place.mk offset ('\x60' :: rest)).Reaches ['\x60'] ⟨offset + 1, rest⟩ :=
        Place.reaches_cons (.refl _)
      refine ⟨_, _, ⟨reaches.trans backtick, by simp, by simp, by simp⟩, ?_, ?_⟩
      · exact passing.plain (by simp)
      exact (shifted_forward (on.after reaches) backtick).symm
  | case6 rest offset afterDollar scanned more =>
      simp only [Probe.accept, Option.some.injEq, Verdict.mk.injEq] at run
      obtain ⟨rfl, rfl⟩ := run
      refine ⟨passed, _, ⟨reaches, fun none => more (running.started.mp none), trivial, by simp⟩,
        ⟨passing.plain (by simp), .inl passing.complete⟩, ?_⟩
      exact (shifted_forward (on.after reaches) (.refl _)).symm
  | case7 character rest offset afterDollar _ _ probe _ =>
      rename_i opens
      simp only [Probe.accept, Option.some.injEq, Verdict.mk.injEq] at run
      obtain ⟨rfl, rfl⟩ := run
      obtain ⟨before, rfl, isFirst⟩ := running.dollar opens.2
      obtain rfl := isFirst.mpr rfl
      obtain ⟨rfl, -⟩ := opens
      have brace : (Place.mk offset ('\x7b' :: rest)).Reaches ['\x7b'] ⟨offset + 1, rest⟩ :=
        Place.reaches_cons (.refl _)
      refine ⟨_, _, ⟨reaches.trans brace, by simp, by simp, by simp⟩, ?_, ?_⟩
      · rw [reaches.rest]
        rfl
      exact (shifted_forward (on.after reaches) brace).symm
  | case8 character rest offset afterDollar scanned _ _ probe _ opens =>
      rename_i more
      simp only [Probe.accept, Option.some.injEq, Verdict.mk.injEq] at run
      obtain ⟨rfl, rfl⟩ := run
      obtain ⟨before, rfl, isFirst⟩ := running.dollar opens.2
      obtain ⟨_, same, complete, plain⟩ := passing.dollar opens.2
      obtain rfl := List.append_cancel_right same
      -- The dollar sign belongs to the hole, so the text ends before it.
      have whole := reaches.rest
      rw [List.append_assoc] at whole
      let dollar : Place := ⟨place.offset + Text.size before, '$' :: character :: rest⟩
      have toDollar : place.Reaches before dollar := ⟨whole, rfl⟩
      have behind : dollar.Reaches ['$'] ⟨offset, character :: rest⟩ := by
        refine ⟨rfl, ?_⟩
        have := reaches.offset
        simp only [Text.size_append] at this
        rw [this, Nat.add_assoc]
      refine ⟨before, dollar, ⟨toDollar, fun none => more (isFirst.mp none), trivial, ?_⟩,
        ⟨plain, .inl complete⟩, ?_⟩
      · simp [dollar]
      exact (shifted_back (on.after reaches) behind).symm
  | case9 character rest offset afterDollar scanned =>
      rename_i breaks
      simp only [Probe.accept, Option.some.injEq, Verdict.mk.injEq] at run
      obtain ⟨rfl, rfl⟩ := run
      obtain ⟨rfl, -⟩ := breaks
      have further := reaches.trans (Place.reaches_step rfl)
      have passing := passing.next (by decide) (by decide) (by simp)
      refine ⟨_, _, ⟨further, by simp, trivial, by simp⟩,
        ⟨passing.plain (by simp), .inl passing.complete⟩, ?_⟩
      exact (shifted_forward (on.after further) (.refl _)).symm
  | case10 character rest offset afterDollar scanned notEnd notBackslash notBacktick noHole _ ih =>
      refine ih (reaches.trans (Place.reaches_cons (.refl _))) (running.next character)
        (passing.next ?_ notBacktick noHole) run
      rintro rfl
      cases rest with
      | nil => exact notEnd rfl rfl
      | cons hidden rest => exact notBackslash hidden rest rfl rfl

/-- A chunk that is found covers the text up to where it stops. -/
theorem template_cut (on : Place.On source place) {mark : Mark} {stop : Nat}
    (found : (template (Probe.ofPlace (Text.size source) place)).verdict = some ⟨mark, stop⟩) :
    ∃ chunk, Chunk place mark chunk (place.moveTo stop) ∧
      Cut place.rest mark chunk (place.moveTo stop).rest ∧ (place.moveTo stop).offset = stop := by
  obtain ⟨chunk, later, covers, cut, rfl⟩ :=
    templateRun_chunk on (.refl place) .start (.start _) found
  rw [covers.covers.moveTo_eq]
  exact ⟨chunk, covers, cut, rfl⟩

theorem template_chunk (on : Place.On source place) {mark : Mark} {stop : Nat}
    (found : (template (Probe.ofPlace (Text.size source) place)).verdict = some ⟨mark, stop⟩) :
    ∃ chunk, Chunk place mark chunk (place.moveTo stop) ∧ (place.moveTo stop).offset = stop := by
  obtain ⟨chunk, covers, -, offset⟩ := template_cut on found
  exact ⟨chunk, covers, offset⟩

/-- Only at the end of the text there is no chunk. -/
theorem template_none {size : Nat}
    (declined : (template (Probe.ofPlace size place)).verdict = none) : place.rest = [] := by
  have run {text : Text} {offset scanned : Nat} {afterDollar : Bool}
      (declined : (templateRun size text offset afterDollar scanned).verdict = none) :
      text = [] ∧ scanned = 0 := by
    fun_induction templateRun size text offset afterDollar scanned with
    | case1 => exact ⟨rfl, rfl⟩
    | case4 hidden rest offset afterDollar scanned ih => exact absurd (ih declined).2 (by omega)
    | case10 character rest offset afterDollar scanned _ _ _ _ _ ih =>
        exact absurd (ih declined).2 (by omega)
    | case2 | case3 | case5 | case6 | case7 | case8 | case9 => cases declined
  exact (run declined).1

end Recognizer

end ScriptTree
