import ScriptTree.Proofs.Grammar.Progress

/-!
# The trail through a text

Whether a slash opens a pattern is decided by what stands in front of it.  The
trail goes through a text token by token from its start.  It knows nothing of
the grammar but how braces and templates nest, which tells it whether a brace
ends a hole of a template.  Whatever it comes to, it has come to behind one
token or one chunk of a template.
-/

namespace ScriptTree

namespace Grammar

/-- What stands in front of a place. -/
inductive Previous where
  /-- Nothing: the text starts here. -/
  | start
  | token (last : Token)
  /-- A chunk of a template. -/
  | chunk (mark : Mark)

/-- Whether a slash opens a pattern behind it. -/
def Previous.allowsPattern : Previous → Bool
  | .start => true
  | .token last => last.kind.allowsPatternAfter
  | .chunk mark => mark == .holeOpen

/-- What a place lies in. -/
inductive Region where
  /-- Code, behind so many braces that are still open. -/
  | code (braces : Nat)
  /-- The text of a template. -/
  | text
  deriving DecidableEq

namespace Region

/-- The regions behind a token of code, the innermost first. -/
def behindToken (kind : TokenKind) (braces : Nat) (outer : List Region) : List Region :=
  match kind, braces with
  | .punctuator .leftBrace, braces => .code (braces + 1) :: outer
  | .punctuator .rightBrace, braces + 1 => .code braces :: outer
  -- No brace is open, so this one ends a hole.
  | .punctuator .rightBrace, 0 => outer
  | .punctuator .backtick, braces => .text :: .code braces :: outer
  | _, braces => .code braces :: outer

/-- The regions behind a chunk of a template, the innermost first. -/
def behindChunk (mark : Mark) (outer : List Region) : List Region :=
  match mark with
  | .holeOpen => .code 0 :: .text :: outer
  | .templateEnd => outer
  | _ => .text :: outer

end Region

/-- A place with what stands in front of it and the regions it lies in, the
innermost first. -/
structure Stand where
  place : Place
  previous : Previous
  regions : List Region

namespace Stand

def point (stand : Stand) : Point :=
  ⟨stand.place, stand.previous.allowsPattern⟩

/-- The stand behind the next token or chunk. -/
def next? (settings : Settings) (stand : Stand) : Option Stand :=
  match stand.regions with
  | [] => none
  | .text :: outer =>
      (stand.point.chunk settings.size).map fun found =>
        ⟨stand.place.moveTo found.stop, .chunk found.mark, Region.behindChunk found.mark outer⟩
  | .code braces :: outer =>
      match stand.point.next settings.dialect with
      | .error _ => none
      | .ok token =>
          if token.isEnd then none
          else some ⟨token.stop, .token token, Region.behindToken token.kind braces outer⟩

end Stand

/-- The stands of the trail, by the number of tokens and chunks in front. -/
def trail (settings : Settings) : Nat → Option Stand
  | 0 => some ⟨.first settings.source, .start, [.code 0]⟩
  | count + 1 => (trail settings count).bind (·.next? settings)

variable {settings : Settings} {point : Point} {previous : Previous} {braces : Nat}
  {outer : List Region}

namespace Stand

theorem next?_token {place : Place} {token : Token}
    (scanned : (Stand.mk place previous (.code braces :: outer)).point.next settings.dialect =
      .ok token)
    (notEnd : token.isEnd = false) :
    (Stand.mk place previous (.code braces :: outer)).next? settings =
      some ⟨token.stop, .token token, Region.behindToken token.kind braces outer⟩ := by
  simp [next?, scanned, notEnd]

theorem next?_chunk {place : Place} {mark : Mark} {stop : Nat}
    (found : (Stand.mk place previous (.text :: outer)).point.chunk settings.size =
      some ⟨mark, stop⟩) :
    (Stand.mk place previous (.text :: outer)).next? settings =
      some ⟨place.moveTo stop, .chunk mark, Region.behindChunk mark outer⟩ := by
  simp [next?, found]

/-- A step of the trail stays in the text and moves forward. -/
theorem next?_forward (sized : settings.size = Text.size settings.source) {stand later : Stand}
    (on : Place.On settings.source stand.place) (moved : stand.next? settings = some later) :
    Place.On settings.source later.place ∧ stand.place.offset < later.place.offset := by
  unfold next? at moved
  split at moved
  case h_1 => cases moved
  case h_2 outer inTemplate =>
    obtain ⟨⟨mark, stop⟩, found, rfl⟩ := Option.map_eq_some_iff.mp moved
    exact stand.point.on_jump sized on found
  case h_3 braces outer inCode =>
    cases scanned : stand.point.next settings.dialect with
    | error fault =>
        rw [scanned] at moved
        cases moved
    | ok token =>
        simp only [scanned] at moved
        split at moved
        · cases moved
        · rename_i notEnd
          cases moved
          obtain ⟨onStop, gap, -, covers⟩ := Point.on_after on scanned
          exact ⟨onStop, lt_of_le_of_lt gap (covers (by simpa using notEnd))⟩

end Stand

/-! ## The stands of the trail -/

theorem trail_on (sized : settings.size = Text.size settings.source) {count : Nat} {stand : Stand}
    (here : trail settings count = some stand) : Place.On settings.source stand.place := by
  induction count generalizing stand with
  | zero =>
      cases here
      exact .first settings.source
  | succ count ih =>
      obtain ⟨earlier, there, moved⟩ := Option.bind_eq_some_iff.mp here
      exact (Stand.next?_forward sized (ih there) moved).1

theorem trail_lt (sized : settings.size = Text.size settings.source) {count more : Nat}
    {stand later : Stand} (here : trail settings count = some stand)
    (there : trail settings (count + more + 1) = some later) :
    stand.place.offset < later.place.offset := by
  induction more generalizing later with
  | zero =>
      obtain ⟨earlier, same, moved⟩ := Option.bind_eq_some_iff.mp there
      cases here.symm.trans same
      exact (Stand.next?_forward sized (trail_on sized here) moved).2
  | succ more ih =>
      obtain ⟨earlier, between, moved⟩ := Option.bind_eq_some_iff.mp there
      exact (ih between).trans (Stand.next?_forward sized (trail_on sized between) moved).2

/-- The trail comes to a place only once. -/
theorem trail_unique (sized : settings.size = Text.size settings.source) {first second : Nat}
    {stand other : Stand} (here : trail settings first = some stand)
    (there : trail settings second = some other)
    (same : stand.place.offset = other.place.offset) : stand = other := by
  rcases lt_trichotomy first second with less | rfl | greater
  · obtain ⟨more, rfl⟩ := Nat.exists_eq_add_of_lt less
    exact absurd same (trail_lt sized here there).ne
  · exact Option.some.inj (here.symm.trans there)
  · obtain ⟨more, rfl⟩ := Nat.exists_eq_add_of_lt greater
    exact absurd same (trail_lt sized there here).ne'

-- Of the two closing braces in the hole, the first closes the one in front of
-- it and the second ends the hole.
example :
    (List.range 7).map (fun count =>
      (trail (.ofOptions ⟨.script, .standard⟩ "\x60$\x7b\x7b\x7d\x7d\x60".toList) count).map
        (·.regions)) =
      [some [.code 0], some [.text, .code 0], some [.code 0, .text, .code 0],
        some [.code 1, .text, .code 0], some [.code 0, .text, .code 0], some [.text, .code 0],
        some [.code 0]] := by
  decide +kernel

namespace Point

/-- The trail comes to a point in code, behind `previous` and in the regions
`.code braces :: outer`, and a slash there is taken as `previous` says. -/
structure Traced (settings : Settings) (point : Point) (previous : Previous) (braces : Nat)
    (outer : List Region) : Prop where
  onTrail : ∃ count,
    trail settings count = some ⟨point.place, previous, .code braces :: outer⟩
  allowed : point.patternAllowed = previous.allowsPattern

/-- The trail comes to a point in the text of a template. -/
def InTemplate (settings : Settings) (point : Point) (outer : List Region) : Prop :=
  ∃ count previous, trail settings count = some ⟨point.place, previous, .text :: outer⟩

/-- The trail comes to a point in code, behind `previous`. -/
def Behind (settings : Settings) (point : Point) (previous : Previous) : Prop :=
  ∃ braces outer, point.Traced settings previous braces outer

/-- The trail comes to a point in the regions `.code braces :: outer`. -/
def Within (settings : Settings) (point : Point) (braces : Nat) (outer : List Region) : Prop :=
  ∃ previous, point.Traced settings previous braces outer

theorem Behind.inText (behind : point.Behind settings previous) : point.InText settings := by
  obtain ⟨_, _, ⟨count, here⟩, -⟩ := behind
  exact fun sized => trail_on sized here

theorem Behind.allowed (behind : point.Behind settings previous) :
    point.patternAllowed = previous.allowsPattern := by
  obtain ⟨_, _, traced⟩ := behind
  exact traced.allowed

theorem Traced.first (settings : Settings) :
    (Point.mk (.first settings.source) true).Traced settings .start 0 [] :=
  ⟨⟨0, rfl⟩, rfl⟩

theorem Traced.step {token : Token} (traced : point.Traced settings previous braces outer)
    (scanned : point.next settings.dialect = .ok token) (notEnd : token.isEnd = false) :
    ∃ count, trail settings count =
      some ⟨token.stop, .token token, Region.behindToken token.kind braces outer⟩ := by
  obtain ⟨⟨count, here⟩, allowed⟩ := traced
  obtain ⟨place, patternAllowed⟩ := point
  subst allowed
  refine ⟨count + 1, ?_⟩
  rw [trail, here]
  exact Stand.next?_token scanned notEnd

/-- A backtick opens the text of a template. -/
theorem Within.backtick {token : Token} (within : point.Within settings braces outer)
    (scanned : point.next settings.dialect = .ok token)
    (opens : token.isPunctuator .backtick = true) :
    (Point.after token).InTemplate settings (.code braces :: outer) := by
  obtain ⟨previous, traced⟩ := within
  obtain ⟨count, there⟩ := traced.step scanned (isEnd_of_punctuator opens)
  have isSign : token.kind = .punctuator .backtick := eq_of_beq opens
  rw [isSign] at there
  exact ⟨count, _, there⟩

/-- A brace that closes no other one leads back to the text of a template. -/
theorem Within.holeEnd {token : Token} (within : point.Within settings 0 (.text :: outer))
    (scanned : point.next settings.dialect = .ok token)
    (closes : token.isPunctuator .rightBrace = true) :
    (Point.after token).InTemplate settings outer := by
  obtain ⟨previous, traced⟩ := within
  obtain ⟨count, there⟩ := traced.step scanned (isEnd_of_punctuator closes)
  have isSign : token.kind = .punctuator .rightBrace := eq_of_beq closes
  rw [isSign] at there
  exact ⟨count, _, there⟩

theorem InTemplate.step {mark : Mark} {stop : Nat} (inside : point.InTemplate settings outer)
    (found : point.chunk settings.size = some ⟨mark, stop⟩) :
    ∃ count, trail settings count =
      some ⟨point.place.moveTo stop, .chunk mark, Region.behindChunk mark outer⟩ := by
  obtain ⟨count, previous, here⟩ := inside
  refine ⟨count + 1, ?_⟩
  rw [trail, here]
  exact Stand.next?_chunk found

theorem InTemplate.text {stop : Nat} (inTemplate : point.InTemplate settings outer)
    (found : point.chunk settings.size = some ⟨.templateText, stop⟩) :
    (point.jump stop false).InTemplate settings outer := by
  obtain ⟨count, there⟩ := inTemplate.step found
  exact ⟨count, _, there⟩

theorem InTemplate.hole {stop : Nat} (inTemplate : point.InTemplate settings outer)
    (found : point.chunk settings.size = some ⟨.holeOpen, stop⟩) :
    (point.jump stop true).Traced settings (.chunk .holeOpen) 0 (.text :: outer) :=
  ⟨inTemplate.step found, rfl⟩

theorem InTemplate.close {stop : Nat}
    (inTemplate : point.InTemplate settings (.code braces :: outer))
    (found : point.chunk settings.size = some ⟨.templateEnd, stop⟩) :
    (point.jump stop false).Within settings braces outer :=
  ⟨_, inTemplate.step found, rfl⟩

/-- What stands in front of a place of the trail is determined. -/
theorem Behind.unique (sized : settings.size = Text.size settings.source) {other : Point}
    {same : Previous} (behind : point.Behind settings previous) (also : other.Behind settings same)
    (place : other.place = point.place) : same = previous := by
  obtain ⟨_, _, ⟨first, here⟩, -⟩ := behind
  obtain ⟨_, _, ⟨second, there⟩, -⟩ := also
  exact congrArg Stand.previous (trail_unique sized there here (congrArg Place.offset place))

end Point

end Grammar

end ScriptTree
