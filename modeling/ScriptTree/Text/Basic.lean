/-!
# Texts and byte offsets

A text is the list of its characters.  Positions in a text are counted in
bytes of its UTF-8 encoding, so an offset may lie beyond the end or inside a
character.  The partial operations below refuse such offsets.
-/

namespace ScriptTree

/-- A text, as the list of its characters. -/
abbrev Text := List Char

namespace Text

/-- Number of bytes in the UTF-8 encoding of a text. -/
def size : Text → Nat
  | [] => 0
  | first :: rest => first.utf8Size + size rest

/-- What is left of a text after `count` bytes, unless the text is shorter or
the cut would fall inside a character. -/
def drop? : Text → Nat → Option Text
  | text, 0 => some text
  | [], _ + 1 => none
  | first :: rest, count + 1 =>
      if first.utf8Size ≤ count + 1 then drop? rest (count + 1 - first.utf8Size) else none

/-- The first `count` bytes of a text, unless the text is shorter or the cut
would fall inside a character. -/
def take? : Text → Nat → Option Text
  | _, 0 => some []
  | [], _ + 1 => none
  | first :: rest, count + 1 =>
      if first.utf8Size ≤ count + 1 then
        (take? rest (count + 1 - first.utf8Size)).map (first :: ·)
      else
        none

/-- The characters between two byte offsets, provided both are character
boundaries in the right order. -/
def slice? (text : Text) (start stop : Nat) : Option Text :=
  if start ≤ stop then
    (text.drop? start).bind fun rest => take? rest (stop - start)
  else
    none

end Text

end ScriptTree
