import ScriptTree.Literal.Basic

/-!
# Regular expression literals

A literal is split at its last slash.  The flags must be known and different,
and the pattern must close every group and class that it opens.
-/

namespace ScriptTree

namespace Literal

/-- The parts of a text before and after the last occurrence of a
character. -/
def splitLast? (mark : Char) : Text → Option (Text × Text)
  | [] => none
  | character :: rest =>
      match splitLast? mark rest with
      | some (before, after) => some (character :: before, after)
      | none => if character = mark then some ([], rest) else none

/-- The pattern and the flags of a literal. -/
def splitPattern? : Text → Option (Text × Text)
  | '/' :: rest => splitLast? '/' rest
  | _ => none

def knownFlags : Text :=
  ['d', 'g', 'i', 'm', 's', 'u', 'y', 'v']

/-- Checks flags one after another against those before them. -/
def checkFlagsAfter (earlier : Text) : Text → Except LiteralFlaw Unit
  | [] => .ok ()
  | flag :: rest =>
      if !knownFlags.contains flag then .error (.unknownFlag flag)
      else if earlier.contains flag then .error (.repeatedFlag flag)
      else checkFlagsAfter (flag :: earlier) rest

def checkFlags (flags : Text) : Except LiteralFlaw Unit := do
  checkFlagsAfter [] flags
  if flags.contains 'u' && flags.contains 'v' then .error .exclusiveFlags else .ok ()

/-- Checks a pattern from a place where `groups` groups are open and a class
is open or not. -/
def checkPatternFrom : Nat → Bool → Text → Except LiteralFlaw Unit
  | groups, inClass, [] =>
      if inClass then .error .unterminatedClass
      else if 0 < groups then .error .unterminatedGroup
      else .ok ()
  | _, _, ['\\'] => .error .danglingEscape
  | groups, inClass, '\\' :: _ :: rest => checkPatternFrom groups inClass rest
  | groups, true, character :: rest => checkPatternFrom groups (character != ']') rest
  | groups, false, character :: rest =>
      if character = '[' then checkPatternFrom groups true rest
      else if character = '(' then checkPatternFrom (groups + 1) false rest
      else if character = ')' then
        match groups with
        | 0 => .error .unmatchedParen
        | groups + 1 => checkPatternFrom groups false rest
      else checkPatternFrom groups false rest

def checkPattern (pattern : Text) : Except LiteralFlaw Unit :=
  if pattern.isEmpty then .error .emptyPattern else checkPatternFrom 0 false pattern

/-- The value of a regular expression literal. -/
def regExpValue (raw : Text) : Except LiteralFlaw LiteralValue :=
  match splitPattern? raw with
  | none => .error .missingSlashes
  | some (pattern, flags) => do
      checkFlags flags
      checkPattern pattern
      return .regExp (String.ofList pattern) (String.ofList flags)

end Literal

end ScriptTree
