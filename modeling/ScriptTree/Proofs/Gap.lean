import ScriptTree.Proofs.Spaced

/-!
# The gap before a token

Trivia falls into items in one way only, so the gap that is reported with a
token can be told from them: it is left by the last item that is not blank.
-/

namespace ScriptTree

namespace Trivia

/-! ## One way to fall into items -/

/-- The mark of the item that a text starts with, if it starts with one. -/
def markOf : Text → Mark
  | [] => .token
  | first :: rest =>
      if isNewline first then .newline
      else if isBlank first then .blanks
      else if rest.head? = some '/' then .lineComment
      else .blockComment

section

variable {rest skipped item piece later more body : Text} {mark : Mark}

theorem isNewline_blank {character : Char} (blank : isBlank character = true) :
    isNewline character = false := by
  by_contra ends
  rw [isBlank_newline (by simpa using ends)] at blank
  cases blank

theorem Item.markOf_eq (isItem : Item mark item) (later : Text) :
    markOf (item ++ later) = mark := by
  cases isItem with
  | blank blank => simp [markOf, isNewline_blank blank, blank]
  | newline ends => simp [markOf, ends]
  | lineComment | blockComment => rfl

theorem Item.ne_nil (isItem : Item mark item) : item ≠ [] := by
  cases isItem <;> simp

/-- A block comment ends where it is closed for the first time. -/
theorem closing_unique (open_ : ¬['*', '/'] <:+: body) (stillOpen : ¬['*', '/'] <:+: piece)
    (same : body ++ '*' :: '/' :: later = piece ++ '*' :: '/' :: more) : body = piece := by
  induction body generalizing piece with
  | nil =>
      match piece, same with
      | [], _ => rfl
      | [first], same => simp at same
      | first :: second :: others, same =>
          simp only [List.nil_append, List.cons_append, List.cons.injEq] at same
          obtain ⟨rfl, rfl, -⟩ := same
          exact absurd ⟨[], others, rfl⟩ stillOpen
  | cons first others ih =>
      match piece, same with
      | [], same =>
          cases others with
          | nil => simp at same
          | cons second others =>
              simp only [List.nil_append, List.cons_append, List.cons.injEq] at same
              obtain ⟨rfl, rfl, -⟩ := same
              exact absurd ⟨[], others, rfl⟩ open_
      | head :: behind, same =>
          simp only [List.cons_append, List.cons.injEq] at same
          obtain ⟨rfl, same⟩ := same
          have earlier : ¬['*', '/'] <:+: others := fun inner =>
            open_ (inner.trans (List.suffix_cons _ _).isInfix)
          have further : ¬['*', '/'] <:+: behind := fun inner =>
            stillOpen (inner.trans (List.suffix_cons _ _).isInfix)
          rw [ih earlier further same]

/-- A line comment goes on to the end of its line. -/
theorem lineBody_unique (inLine : ∀ character ∈ body, isNewline character = false)
    (ends : EndsLine later) :
    (body ++ later).takeWhile (fun character => !isNewline character) = body := by
  refine (Text.run_append (fun character isIn => by simp [inLine character isIn]) ?_).1
  cases later with
  | nil => rfl
  | cons first others =>
      have isNewline : isNewline first = true := ends
      simp [isNewline]

/-- Two items that a text starts with are the same. -/
theorem Item.unique {other : Mark} (first : Item mark item) (second : Item other piece)
    (complete : mark = .lineComment → EndsLine later)
    (otherComplete : other = .lineComment → EndsLine more)
    (same : item ++ later = piece ++ more) : mark = other ∧ item = piece := by
  obtain rfl : mark = other := by
    rw [← first.markOf_eq later, same, second.markOf_eq more]
  refine ⟨rfl, ?_⟩
  cases first with
  | blank | newline =>
      cases second
      simp only [List.cons_append, List.nil_append, List.cons.injEq] at same
      rw [same.1]
  | @lineComment body inLine =>
      cases second with
      | @lineComment otherBody otherInLine =>
          have bodies : body ++ later = otherBody ++ more := by simpa using same
          have taken := lineBody_unique inLine (complete rfl)
          rw [bodies, lineBody_unique otherInLine (otherComplete rfl)] at taken
          rw [taken]
  | @blockComment body open_ =>
      cases second with
      | @blockComment otherBody otherOpen =>
          have bodies : body ++ '*' :: '/' :: later = otherBody ++ '*' :: '/' :: more := by
            simpa using same
          rw [closing_unique open_ otherOpen bodies]

/-- Trivia in front of a text has one sequence of marks. -/
theorem Fills.unique {marks others : List Mark} (fills : Fills rest marks skipped)
    (again : Fills rest others skipped) : marks = others := by
  induction fills generalizing others with
  | none =>
      generalize none : ([] : Text) = skipped at again
      cases again with
      | none => rfl
      | item isItem =>
          obtain ⟨empty, -⟩ := List.append_eq_nil_iff.mp none.symm
          exact absurd empty isItem.ne_nil
  | @item mark marks item later isItem complete further ih =>
      generalize whole : item ++ later = skipped at again
      cases again with
      | none => exact absurd (List.append_eq_nil_iff.mp whole).1 isItem.ne_nil
      | @item other others piece more isPiece otherComplete otherFurther =>
          have same : item ++ (later ++ rest) = piece ++ (more ++ rest) := by
            rw [← List.append_assoc, whole, List.append_assoc]
          obtain ⟨rfl, rfl⟩ := isItem.unique isPiece complete otherComplete same
          obtain rfl : later = more := List.append_cancel_left whole
          rw [ih otherFurther]

end

/-! ## What the items leave -/

def lastMark (marks : List Mark) : Option Mark :=
  (marks.filter (· != .blanks)).getLast?

theorem lastMark_snoc (marks : List Mark) (mark : Mark) :
    lastMark (marks ++ [mark]) = if mark = .blanks then lastMark marks else some mark := by
  by_cases blank : mark = .blanks
  · simp [lastMark, blank]
  · simp [lastMark, blank]

/-- Marks leave the gap that the last of them leaves which is not blank. -/
theorem foldl_after (marks : List Mark) :
    marks.foldl Gap.after .plain = ((lastMark marks).map Gap.plain.after).getD .plain := by
  induction marks using List.reverseRecOn with
  | nil => rfl
  | append_singleton marks mark ih =>
      rw [List.foldl_append, lastMark_snoc, ih]
      cases mark <;> rfl

def breakMarks : List Mark :=
  [.newline, .lineComment, .blockComment]

theorem Fills.blank_or_break {rest skipped : Text} {marks : List Mark}
    (fills : Fills rest marks skipped) : ∀ mark ∈ marks, mark = .blanks ∨ mark ∈ breakMarks := by
  induction fills with
  | none => exact List.forall_mem_nil _
  | item isItem complete further ih =>
      refine List.forall_mem_cons.mpr ⟨?_, ih⟩
      cases isItem with
      | blank => exact .inl rfl
      | newline | lineComment | blockComment => exact .inr (by decide)

/-- The last item that is not blank is a line terminator or a comment. -/
theorem Fills.lastMark_mem {rest skipped : Text} {marks : List Mark} {mark : Mark}
    (fills : Fills rest marks skipped) (isLast : lastMark marks = some mark) :
    mark ∈ marks ∧ mark ∈ breakMarks := by
  obtain ⟨isIn, notBlank⟩ := List.mem_filter.mp (List.mem_of_getLast? isLast)
  exact ⟨isIn, (fills.blank_or_break mark isIn).resolve_left (by simpa using notBlank)⟩

/-- There is a last item that is not blank if there is any line terminator or
comment. -/
theorem exists_lastMark {marks : List Mark} {mark : Mark} (isIn : mark ∈ marks)
    (breaks : mark ∈ breakMarks) : ∃ last, lastMark marks = some last := by
  have notBlank : mark ≠ .blanks := by
    rintro rfl
    revert breaks
    decide
  have kept : mark ∈ marks.filter (· != .blanks) :=
    List.mem_filter.mpr ⟨isIn, by simpa using notBlank⟩
  exact ⟨_, List.getLast?_eq_some_getLast (List.ne_nil_of_mem kept)⟩

/-- The last item that is not blank, and the gap that the items leave. -/
theorem Fills.lastMark_cases {rest skipped : Text} {marks : List Mark}
    (fills : Fills rest marks skipped) :
    (lastMark marks = Option.none ∧ marks.foldl Gap.after .plain = .plain) ∨
      (lastMark marks = some .newline ∧ marks.foldl Gap.after .plain = .newline) ∨
      (lastMark marks = some .lineComment ∧ marks.foldl Gap.after .plain = .comment) ∨
      (lastMark marks = some .blockComment ∧ marks.foldl Gap.after .plain = .comment) := by
  rw [foldl_after]
  cases isLast : lastMark marks with
  | none => exact .inl ⟨rfl, rfl⟩
  | some mark =>
      have breaks := (fills.lastMark_mem isLast).2
      simp only [breakMarks, List.mem_cons, List.not_mem_nil, or_false] at breaks
      rcases breaks with rfl | rfl | rfl
      · exact .inr (.inl ⟨rfl, rfl⟩)
      · exact .inr (.inr (.inl ⟨rfl, rfl⟩))
      · exact .inr (.inr (.inr ⟨rfl, rfl⟩))

end Trivia

/-- How a gap is told from the trivia that stands in front of a text. -/
structure Gap.Tells (gap : Gap) (rest skipped : Text) : Prop where
  plain : gap = .plain ↔ ∀ character ∈ skipped, isBlank character = true
  /-- The trivia falls into items in exactly one way. -/
  falls : ∃! marks, Trivia.Fills rest marks skipped
  comment : ∀ marks, Trivia.Fills rest marks skipped →
    (gap = .comment ↔ Trivia.lastMark marks = some .lineComment ∨
      Trivia.lastMark marks = some .blockComment)
  newline : ∀ marks, Trivia.Fills rest marks skipped →
    (gap = .newline ↔ Trivia.lastMark marks = some .newline)
  isBreak : ∀ marks, Trivia.Fills rest marks skipped →
    (gap.isBreak = true ↔ ∃ mark ∈ marks, mark ∈ Trivia.breakMarks)

namespace Trivia

theorem Fills.plain_iff {rest skipped : Text} {marks : List Mark}
    (fills : Fills rest marks skipped) :
    marks.foldl Gap.after .plain = .plain ↔ ∀ character ∈ skipped, isBlank character = true := by
  constructor
  · intro plain
    have unbroken : (marks.foldl Gap.after .plain).isBreak = false := by rw [plain]; rfl
    exact (fills.blanks_of_plain unbroken).2
  · intro blanks
    exact fills.gap_of_blanks blanks

/-- The gap that items leave is told from them. -/
theorem Fills.tells {rest skipped : Text} {marks : List Mark} (fills : Fills rest marks skipped) :
    (marks.foldl Gap.after .plain).Tells rest skipped := by
  -- Every other way to fall into items is the one at hand.
  have only {others : List Mark} (again : Fills rest others skipped) : others = marks :=
    again.unique fills
  refine ⟨fills.plain_iff, ⟨marks, fills, fun others => only⟩, ?_, ?_, ?_⟩
  · intro others again
    rw [only again]
    rcases fills.lastMark_cases with ⟨last, left⟩ | ⟨last, left⟩ | ⟨last, left⟩ | ⟨last, left⟩ <;>
      simp [last, left]
  · intro others again
    rw [only again]
    rcases fills.lastMark_cases with ⟨last, left⟩ | ⟨last, left⟩ | ⟨last, left⟩ | ⟨last, left⟩ <;>
      simp [last, left]
  · intro others again
    have whenever : (∃ mark ∈ marks, mark ∈ breakMarks) ↔ ∃ last, lastMark marks = some last :=
      ⟨fun ⟨_, isIn, breaks⟩ => exists_lastMark isIn breaks,
        fun ⟨last, isLast⟩ => ⟨last, fills.lastMark_mem isLast⟩⟩
    rw [only again, whenever]
    rcases fills.lastMark_cases with ⟨last, left⟩ | ⟨last, left⟩ | ⟨last, left⟩ | ⟨last, left⟩ <;>
      simp [last, left, Gap.isBreak]

end Trivia

namespace Token

/-- The gap of a scanned token is told from the trivia between the place where
scanning started and the token. -/
theorem scan_gap (dialect : Dialect) (before after : Text) (patternAllowed : Bool) (token : Token)
    (run : scan dialect (Place.ofOffset (before ++ after) (Text.size before)) patternAllowed =
      .ok token) :
    ∃ skipped, (before ++ after).slice? (Text.size before) token.span.start = some skipped ∧
      (before ++ after).drop? token.span.start = some token.start.rest ∧
      token.gap.Tells token.start.rest skipped := by
  rw [Place.ofOffset_append] at run
  have on := Place.on_behind before after
  obtain ⟨marks, skipped, reaches, fills, left, -⟩ :=
    Trivia.skip_skipped (scan_scanned run).skipped
  refine ⟨skipped, on.slice?_eq reaches, (on.after reaches).drop?_eq, ?_⟩
  rw [left]
  exact fills.tells

/-- Line terminators before and inside of a comment, and a space behind it. -/
theorem scan_gap_comment :
    ∃ token, scan .script (Place.ofOffset ("é".toList ++ "\n/*\n//*/ x".toList) 2) true =
        .ok token ∧ token.gap = .comment ∧
      ∃ skipped, Text.slice? ("é".toList ++ "\n/*\n//*/ x".toList) 2 token.span.start =
          some skipped ∧
        Text.drop? ("é".toList ++ "\n/*\n//*/ x".toList) token.span.start =
          some token.start.rest ∧
        token.gap.Tells token.start.rest skipped := by
  have run : ∃ token, scan .script
      (Place.ofOffset ("é".toList ++ "\n/*\n//*/ x".toList) 2) true = .ok token ∧
        token.gap = .comment :=
    ⟨_, rfl, rfl⟩
  obtain ⟨token, run, isComment⟩ := run
  exact ⟨token, run, isComment, scan_gap .script "é".toList "\n/*\n//*/ x".toList true token run⟩

end Token

end ScriptTree
