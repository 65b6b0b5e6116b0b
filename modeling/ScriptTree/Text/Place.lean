import ScriptTree.Text.Basic

/-!
# Reading places

A place is where a reader stands in a text: the byte offset it has reached
together with the characters that are still to come.  Reading only ever moves
a place forward over whole characters.
-/

namespace ScriptTree

/-- A byte offset together with the characters that follow it. -/
structure Place where
  offset : Nat
  rest : Text
  deriving DecidableEq

namespace Place

/-- The beginning of a text. -/
def first (text : Text) : Place :=
  ⟨0, text⟩

/-- The place at a byte offset.  An offset beyond the end is moved to the end,
and nothing can be read from an offset inside a character. -/
def ofOffset (text : Text) (offset : Nat) : Place :=
  let inside := min offset (Text.size text)
  ⟨inside, (Text.drop? text inside).getD []⟩

/-- The character at this place, or nothing at the end of the text. -/
def current (place : Place) : Option Char :=
  place.rest.head?

/-- The character `distance` characters ahead. -/
def ahead (place : Place) (distance : Nat) : Option Char :=
  place.rest[distance]?

/-- The place after the current character. -/
def step (place : Place) : Place :=
  match place.rest with
  | [] => place
  | character :: rest => ⟨place.offset + character.utf8Size, rest⟩

/-- The place after the given number of characters. -/
def advance (place : Place) (count : Nat) : Place :=
  ⟨place.offset + Text.size (place.rest.take count), place.rest.drop count⟩

/-- The place after the longest run of characters satisfying `test`. -/
def skipWhile (place : Place) (test : Char → Bool) : Place :=
  ⟨place.offset + Text.size (place.rest.takeWhile test), place.rest.dropWhile test⟩

def moveTo (place : Place) (stop : Nat) : Place :=
  ⟨stop, (Text.drop? place.rest (stop - place.offset)).getD []⟩

def upTo (place : Place) (stop : Nat) : Text :=
  (Text.take? place.rest (stop - place.offset)).getD []

end Place

end ScriptTree
