import Mathlib.Data.List.Basic
import ScriptTree.Span
import ScriptTree.Text.Place

/-!
# Texts between two places

A reader moves from one place to a later one over some characters.  The byte
operations on texts are exact there: cutting at the offsets of two such places
gives the characters between them.
-/

namespace ScriptTree

namespace Text

@[simp]
theorem size_nil : size [] = 0 :=
  rfl

@[simp]
theorem size_cons (first : Char) (rest : Text) :
    size (first :: rest) = first.utf8Size + size rest :=
  rfl

@[simp]
theorem size_append (first second : Text) : size (first ++ second) = size first + size second := by
  induction first with
  | nil => simp
  | cons character rest ih => simp [ih, Nat.add_assoc]

theorem size_pos {text : Text} (nonempty : text ≠ []) : 0 < size text := by
  cases text with
  | nil => contradiction
  | cons character rest =>
      have := character.utf8Size_pos
      rw [size_cons]
      omega

/-- A run ends at the first character that does not belong to it. -/
theorem run_append {test : Char → Bool} {run more : Text}
    (all : ∀ character ∈ run, test character = true) (stops : more.head?.any test = false) :
    (run ++ more).takeWhile test = run ∧ (run ++ more).dropWhile test = more := by
  have stopsAt : more.takeWhile test = [] ∧ more.dropWhile test = more := by
    cases more with
    | nil => exact ⟨rfl, rfl⟩
    | cons next rest =>
        have other : test next = false := by simpa using stops
        simp [other]
  rw [List.takeWhile_append_of_pos all, List.dropWhile_append_of_pos all, stopsAt.1, stopsAt.2,
    List.append_nil]
  exact ⟨rfl, rfl⟩

/-- Dropping the bytes of a beginning leaves the rest. -/
theorem drop?_append (before after : Text) :
    drop? (before ++ after) (size before) = some after := by
  induction before with
  | nil =>
      rw [List.nil_append, size_nil, drop?]
  | cons character rest ih =>
      have positive := character.utf8Size_pos
      obtain ⟨count, same⟩ : ∃ count, size (character :: rest) = count + 1 :=
        ⟨size (character :: rest) - 1, by rw [size_cons]; omega⟩
      rw [size_cons] at same
      rw [size_cons, same, List.cons_append, drop?, if_pos (by omega), ← same,
        Nat.add_sub_cancel_left]
      exact ih

/-- Taking the bytes of a beginning gives that beginning. -/
theorem take?_append (before after : Text) :
    take? (before ++ after) (size before) = some before := by
  induction before with
  | nil =>
      rw [List.nil_append, size_nil, take?]
  | cons character rest ih =>
      have positive := character.utf8Size_pos
      obtain ⟨count, same⟩ : ∃ count, size (character :: rest) = count + 1 :=
        ⟨size (character :: rest) - 1, by rw [size_cons]; omega⟩
      rw [size_cons] at same
      rw [size_cons, same, List.cons_append, take?, if_pos (by omega), ← same,
        Nat.add_sub_cancel_left, ih]
      rfl

theorem slice?_append (before middle after : Text) :
    slice? (before ++ (middle ++ after)) (size before) (size before + size middle) =
      some middle := by
  rw [slice?, if_pos (by omega), drop?_append, Option.bind_some, Nat.add_sub_cancel_left,
    take?_append]

end Text

namespace Place

/-- A reader moves over some characters from one place to another. -/
structure Reaches (place : Place) (text : Text) (later : Place) : Prop where
  rest : place.rest = text ++ later.rest
  offset : later.offset = place.offset + Text.size text

namespace Reaches

variable {place middle later : Place} {text more : Text}

theorem refl (place : Place) : place.Reaches [] place :=
  ⟨rfl, rfl⟩

theorem trans (first : place.Reaches text middle) (second : middle.Reaches more later) :
    place.Reaches (text ++ more) later where
  rest := by rw [first.rest, second.rest, List.append_assoc]
  offset := by rw [second.offset, first.offset, Text.size_append, Nat.add_assoc]

theorem moveTo_eq (reaches : place.Reaches text later) : place.moveTo later.offset = later := by
  obtain ⟨rest, offset⟩ := reaches
  unfold moveTo
  rw [offset, Nat.add_sub_cancel_left, rest, Text.drop?_append, ← offset]
  rfl

theorem upTo_eq (reaches : place.Reaches text later) : place.upTo later.offset = text := by
  obtain ⟨rest, offset⟩ := reaches
  unfold upTo
  rw [offset, Nat.add_sub_cancel_left, rest, Text.take?_append]
  rfl

/-- The text between two places is determined by them. -/
theorem text_unique (first : place.Reaches text later) (second : place.Reaches more later) :
    text = more :=
  first.upTo_eq.symm.trans second.upTo_eq

theorem offset_lt (reaches : place.Reaches text later) (nonempty : text ≠ []) :
    place.offset < later.offset := by
  have := Text.size_pos nonempty
  rw [reaches.offset]
  omega

theorem offset_le (reaches : place.Reaches text later) : place.offset ≤ later.offset := by
  rw [reaches.offset]
  omega

end Reaches

theorem reaches_advance (place : Place) (count : Nat) :
    place.Reaches (place.rest.take count) (place.advance count) :=
  ⟨(List.take_append_drop count place.rest).symm, rfl⟩

theorem reaches_skipWhile (place : Place) (test : Char → Bool) :
    place.Reaches (place.rest.takeWhile test) (place.skipWhile test) :=
  ⟨List.takeWhile_append_dropWhile.symm, rfl⟩

theorem reaches_step {place : Place} {first : Char} {rest : Text}
    (starts : place.rest = first :: rest) : place.Reaches [first] place.step := by
  constructor
  · simp [step, starts]
  · simp [step, starts]

theorem reaches_cons {offset : Nat} {character : Char} {rest passed : Text} {later : Place}
    (reaches : (Place.mk (offset + character.utf8Size) rest).Reaches passed later) :
    (Place.mk offset (character :: rest)).Reaches (character :: passed) later :=
  (reaches_step rfl).trans reaches

/-- The place lies in the given text. -/
def On (source : Text) (place : Place) : Prop :=
  ∃ before, (Place.first source).Reaches before place

namespace On

variable {source : Text} {place later : Place} {text : Text}

theorem first (source : Text) : On source (Place.first source) :=
  ⟨[], .refl _⟩

theorem after (on : On source place) (reaches : place.Reaches text later) : On source later := by
  obtain ⟨before, whole⟩ := on
  exact ⟨before ++ text, whole.trans reaches⟩

/-- Source and offset determine the place. -/
theorem ofOffset_eq (on : On source place) : Place.ofOffset source place.offset = place := by
  obtain ⟨before, rest, offset⟩ := on
  change source = before ++ place.rest at rest
  change place.offset = 0 + Text.size before at offset
  have inside : place.offset ≤ Text.size source := by
    rw [rest, Text.size_append]
    omega
  unfold ofOffset
  simp only [Nat.min_eq_left inside]
  rw [offset, Nat.zero_add, rest, Text.drop?_append, ← Nat.zero_add (Text.size before), ← offset]
  rfl

theorem drop?_eq (on : On source place) : source.drop? place.offset = some place.rest := by
  obtain ⟨before, rest, offset⟩ := on
  change source = before ++ place.rest at rest
  change place.offset = 0 + Text.size before at offset
  rw [offset, Nat.zero_add, rest, Text.drop?_append]

theorem slice?_eq (on : On source place) (reaches : place.Reaches text later) :
    source.slice? place.offset later.offset = some text := by
  obtain ⟨before, rest, offset⟩ := on
  change source = before ++ place.rest at rest
  change place.offset = 0 + Text.size before at offset
  rw [reaches.offset, offset, Nat.zero_add, rest, reaches.rest, Text.slice?_append]

/-- Only the end of the text has nothing behind it. -/
theorem offset_of_end (on : On source place) (ends : place.rest = []) :
    place.offset = Text.size source := by
  obtain ⟨before, rest, offset⟩ := on
  change source = before ++ place.rest at rest
  change place.offset = 0 + Text.size before at offset
  rw [offset, rest, ends, List.append_nil, Nat.zero_add]

theorem offset_add (on : On source place) :
    place.offset + Text.size place.rest = Text.size source := by
  obtain ⟨before, rest, offset⟩ := on
  change source = before ++ place.rest at rest
  change place.offset = 0 + Text.size before at offset
  rw [offset, rest, Text.size_append, Nat.zero_add]

end On

theorem on_behind (before after : Text) : On (before ++ after) ⟨Text.size before, after⟩ :=
  ⟨before, rfl, (Nat.zero_add _).symm⟩

/-- The place behind the beginning of a text. -/
theorem ofOffset_append (before after : Text) :
    Place.ofOffset (before ++ after) (Text.size before) = ⟨Text.size before, after⟩ :=
  (on_behind before after).ofOffset_eq

end Place

end ScriptTree
