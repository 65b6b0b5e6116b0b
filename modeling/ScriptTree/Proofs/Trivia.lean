import Mathlib.Data.List.Infix
import ScriptTree.Proofs.Text
import ScriptTree.Token.Trivia

/-!
# The trivia in front of a token

What is skipped in front of a token falls into items: blanks, line terminators
and comments from their opening to their end.  The items leave the gap that is
reported, and no further item starts where skipping stops.
-/

namespace ScriptTree

namespace Trivia

/-- An item of trivia, with the mark it leaves. -/
inductive Item : Mark → Text → Prop where
  | blank {character : Char} (isBlank : isBlank character = true) : Item .blanks [character]
  | newline {character : Char} (ends : isNewline character = true) : Item .newline [character]
  | lineComment {body : Text} (inLine : ∀ character ∈ body, isNewline character = false) :
      Item .lineComment ('/' :: '/' :: body)
  | blockComment {body : Text} (open_ : ¬['*', '/'] <:+: body) :
      Item .blockComment ('/' :: '*' :: (body ++ ['*', '/']))

def EndsLine (text : Text) : Prop :=
  text.head?.all isNewline = true

/-- Texts made of items that stand in front of `rest`.  A line comment is
complete only if it goes on to the end of its line. -/
inductive Fills (rest : Text) : List Mark → Text → Prop where
  | none : Fills rest [] []
  | item {mark : Mark} {marks : List Mark} {item later : Text} (isItem : Item mark item)
      (complete : mark = .lineComment → EndsLine (later ++ rest))
      (further : Fills rest marks later) : Fills rest (mark :: marks) (item ++ later)

theorem Fills.cons {rest skipped : Text} {mark : Mark} {marks : List Mark} {character : Char}
    (isItem : Item mark [character]) (further : Fills rest marks skipped) :
    Fills rest (mark :: marks) (character :: skipped) := by
  refine .item isItem ?_ further
  rintro rfl
  cases isItem

theorem isBlank_newline {character : Char} (ends : isNewline character = true) :
    isBlank character = false := by
  simp only [isNewline, Bool.or_eq_true, beq_iff_eq] at ends
  rcases ends with ((rfl | rfl) | rfl) | rfl <;> rfl

/-- A gap without a break is left only by blanks. -/
theorem Fills.blanks_of_plain {rest skipped : Text} {marks : List Mark} {gap : Gap}
    (fills : Fills rest marks skipped) (plain : (marks.foldl Gap.after gap).isBreak = false) :
    gap.isBreak = false ∧ ∀ character ∈ skipped, isBlank character = true := by
  induction fills generalizing gap with
  | none => exact ⟨plain, by simp⟩
  | item isItem complete further ih =>
      obtain ⟨earlier, blanks⟩ := ih plain
      cases isItem with
      | blank isBlank => exact ⟨earlier, by simpa using ⟨isBlank, blanks⟩⟩
      | newline | lineComment | blockComment => cases earlier

/-- Blanks do not change the gap. -/
theorem Fills.gap_of_blanks {rest skipped : Text} {marks : List Mark} {gap : Gap}
    (fills : Fills rest marks skipped)
    (blanks : ∀ character ∈ skipped, isBlank character = true) :
    marks.foldl Gap.after gap = gap := by
  induction fills with
  | none => rfl
  | item isItem complete further ih =>
      have later := ih fun character isIn => blanks character (List.mem_append_right _ isIn)
      cases isItem with
      | blank isBlank => exact later
      | @newline character ends =>
          have blank := blanks character (by simp)
          rw [isBlank_newline ends] at blank
          cases blank
      | lineComment | blockComment => exact absurd (blanks '/' (by simp)) (by decide)

/-- No item of trivia starts here. -/
def Clear (text : Text) : Prop :=
  ∀ mark item later, Item mark item → text ≠ item ++ later

/-- The first character of a text is neither space nor the slash of a comment. -/
def Significant (text : Text) : Prop :=
  ∀ first rest, text = first :: rest → isNewline first = false ∧ isBlank first = false ∧
    (first = '/' → rest.head? ≠ some '/' ∧ rest.head? ≠ some '*')

theorem Significant.clear {text : Text} (significant : Significant text) : Clear text := by
  rintro mark item later isItem rfl
  cases isItem with
  | blank isBlank =>
      have notBlank := (significant _ _ rfl).2.1
      rw [isBlank] at notBlank
      cases notBlank
  | newline ends =>
      have inLine := (significant _ _ rfl).1
      rw [ends] at inLine
      cases inLine
  | lineComment => exact ((significant _ _ rfl).2.2 rfl).1 rfl
  | blockComment => exact ((significant _ _ rfl).2.2 rfl).2 rfl

/-- Cutting a text off does not turn its beginning into trivia. -/
theorem Significant.left {text more : Text} (significant : Significant (text ++ more)) :
    Significant text := by
  rintro first rest rfl
  obtain ⟨inLine, notBlank, noComment⟩ := significant first (rest ++ more) rfl
  refine ⟨inLine, notBlank, fun slash => ?_⟩
  cases rest with
  | nil => exact ⟨nofun, nofun⟩
  | cons second rest => exact noComment slash

/-- What is skipped from a position of the reader of trivia.  The comment it
stands in has left its mark already if it is a line comment. -/
def Inside.Fills (rest : Text) : Inside → List Mark → Text → Prop
  | .nothing, marks, skipped => Trivia.Fills rest marks skipped
  | .lineComment, marks, skipped => ∃ body later, skipped = body ++ later ∧
      (∀ character ∈ body, isNewline character = false) ∧ EndsLine (later ++ rest) ∧
      Trivia.Fills rest marks later
  | .blockComment _, marks, skipped => ∃ body later others, skipped = body ++ '*' :: '/' :: later ∧
      ¬['*', '/'] <:+: body ∧ marks = .blockComment :: others ∧ Trivia.Fills rest others later

structure Skipped (inside : Inside) (gap : Gap) (place stop : Place) (final : Gap)
    (marks : List Mark) (skipped : Text) : Prop where
  reaches : place.Reaches skipped stop
  fills : inside.Fills stop.rest marks skipped
  gap : final = marks.foldl Gap.after gap
  significant : Significant stop.rest

theorem skipFrom_skipped {text : Text} {offset : Nat} {inside : Inside} {gap final : Gap}
    {stop : Place} (run : skipFrom text offset inside gap = .ok (stop, final)) :
    ∃ marks skipped, Skipped inside gap ⟨offset, text⟩ stop final marks skipped := by
  fun_induction skipFrom text offset inside gap with
  | case1 => cases run
  | case2 offset inside gap notBlock =>
      cases run
      refine ⟨[], [], .refl _, ?_, rfl, nofun⟩
      cases inside with
      | nothing => exact .none
      | lineComment => exact ⟨[], [], rfl, by simp, rfl, .none⟩
      | blockComment start => exact (notBlock start rfl).elim
  | case3 rest offset start gap ih =>
      obtain ⟨marks, skipped, reaches, fills, same, significant⟩ := ih run
      exact ⟨_, _, Place.reaches_cons (Place.reaches_cons reaches),
        ⟨[], skipped, marks, rfl, by simp, rfl, fills⟩, same, significant⟩
  | case4 character rest offset start gap notClosing ih =>
      obtain ⟨_, _, reaches, ⟨body, later, marks, rfl, open_, rfl, fills⟩, same, significant⟩ :=
        ih run
      refine ⟨_, _, Place.reaches_cons reaches,
        ⟨character :: body, later, marks, rfl, ?_, rfl, fills⟩, same, significant⟩
      rw [List.infix_cons_iff]
      rintro (starts | inner)
      · obtain ⟨more, equal⟩ := starts
        rw [List.cons_append, List.cons_append, List.nil_append, List.cons.injEq] at equal
        have behind := reaches.rest
        simp only [← equal.2, List.cons_append] at behind
        exact notClosing _ equal.1.symm behind
      · exact open_ inner
  | case5 character rest offset gap newline ih =>
      obtain ⟨marks, skipped, reaches, fills, same, significant⟩ := ih run
      refine ⟨.newline :: marks, _, Place.reaches_cons reaches,
        ⟨[], character :: skipped, rfl, by simp, ?_, ?_⟩, same, significant⟩
      · simp [EndsLine, newline]
      · exact .cons (.newline newline) fills
  | case6 character rest offset gap inLine ih =>
      obtain ⟨marks, _, reaches, ⟨body, later, rfl, allInLine, ends, fills⟩, same, significant⟩ :=
        ih run
      refine ⟨marks, _, Place.reaches_cons reaches,
        ⟨character :: body, later, rfl, ?_, ends, fills⟩, same, significant⟩
      simpa [inLine] using allInLine
  | case7 rest offset gap ih =>
      obtain ⟨marks, _, reaches, ⟨body, later, rfl, inLine, ends, fills⟩, same, significant⟩ :=
        ih run
      exact ⟨.lineComment :: marks, _, Place.reaches_cons (Place.reaches_cons reaches),
        .item (.lineComment inLine) (fun _ => ends) fills, same, significant⟩
  | case8 rest offset gap ih =>
      obtain ⟨_, _, reaches, ⟨body, later, marks, rfl, open_, rfl, fills⟩, same, significant⟩ :=
        ih run
      have closed := Fills.item (.blockComment open_) nofun fills
      refine ⟨_, _, Place.reaches_cons (Place.reaches_cons reaches), ?_, same, significant⟩
      simpa [Inside.Fills] using closed
  | case9 character rest offset gap notLine notBlock newline ih =>
      obtain ⟨marks, skipped, reaches, fills, same, significant⟩ := ih run
      exact ⟨.newline :: marks, _, Place.reaches_cons reaches,
        .cons (.newline newline) fills, same, significant⟩
  | case10 character rest offset gap notLine notBlock notNewline blank ih =>
      obtain ⟨marks, skipped, reaches, fills, same, significant⟩ := ih run
      exact ⟨.blanks :: marks, _, Place.reaches_cons reaches,
        .cons (.blank blank) fills, same, significant⟩
  | case11 character rest offset gap notLine notBlock notNewline notBlank =>
      cases run
      refine ⟨[], [], .refl _, .none, rfl, ?_⟩
      rintro first more ⟨⟩
      refine ⟨by simpa using notNewline, by simpa using notBlank, ?_⟩
      rintro rfl
      constructor <;> intro opens <;> obtain ⟨more, rfl⟩ := List.head?_eq_some_iff.mp opens
      · exact notLine more rfl rfl
      · exact notBlock more rfl rfl

/-- Items are skipped as long as there are any, and the gap is what they
leave. -/
theorem skip_skipped {place start : Place} {gap : Gap} (run : skip place = .ok (start, gap)) :
    ∃ marks skipped, place.Reaches skipped start ∧ Fills start.rest marks skipped ∧
      gap = marks.foldl Gap.after .plain ∧ Significant start.rest := by
  obtain ⟨marks, skipped, reaches, fills, same, significant⟩ := skipFrom_skipped run
  exact ⟨marks, skipped, reaches, fills, same, significant⟩

end Trivia

end ScriptTree
