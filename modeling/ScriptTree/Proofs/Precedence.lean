import ScriptTree.Proofs.Grammar.Chain
import ScriptTree.Proofs.Spaced

/-!
# Precedence of binary operators

In every text that is read, binary expressions are grouped by the levels of
their operators.  Names with operators between them are always read, and as
the only tree that is grouped so.
-/

namespace ScriptTree

open Grammar

/-- A word that is scanned as a name. -/
structure IsName (dialect : Dialect) (word : Text) : Prop where
  starts : word.head?.any isNameStart = true
  parts : word.all isNamePart = true
  free : Token.wordKind dialect word = .identifier

/-- Operators and names with single spaces in front of them. -/
def chainTail : List (Spelling × Text) → Text
  | [] => []
  | (operator, name) :: rest => ' ' :: (operator.chars ++ ' ' :: (name ++ chainTail rest))

/-- Names with operators and single spaces between them. -/
def chainText (first : Text) (rest : List (Spelling × Text)) : Text :=
  first ++ chainTail rest

/-- The words of a chain. -/
def chainWords (first : Text) (rest : List (Spelling × Text)) : List Text :=
  first :: rest.flatMap fun link => [link.1.chars, link.2]

theorem chainTail_ends (rest : List (Spelling × Text)) :
    (chainTail rest).head?.any isNamePart = false := by
  cases rest with
  | nil => rfl
  | cons link rest => rfl

/-- A name is scanned in front of a space or the end of the text. -/
theorem IsName.scan {dialect : Dialect} {word : Text} (isName : IsName dialect word) (offset : Nat)
    (rest : List (Spelling × Text)) (patternAllowed : Bool) :
    Token.scan dialect ⟨offset, word ++ chainTail rest⟩ patternAllowed =
      .ok (.direct .identifier word offset (chainTail rest)) := by
  rw [Token.scan_word isName.starts isName.parts (chainTail_ends rest), isName.free]

/-- An operator is scanned between two spaces. -/
theorem scan_operator (dialect : Dialect) (offset : Nat) (more : Text) {spelling : Spelling}
    (isOperator : spelling.operator?.isSome = true) :
    ∃ kind operator, Token.scan dialect ⟨offset, ' ' :: (spelling.chars ++ ' ' :: more)⟩ false =
        .ok (.direct kind spelling.chars (offset + 1) (' ' :: more)) ∧
      BinaryOperator.ofToken? kind false = some operator := by
  rw [Token.scan_space]
  obtain ⟨operator, found⟩ := Option.isSome_iff_exists.mp isOperator
  cases spelling with
  | punctuator sign =>
      exact ⟨.punctuator sign, operator, Token.scan_sign nofun (.inr (.inl ⟨_, rfl⟩)), found⟩
  | keyword word =>
      refine ⟨.keyword word, operator, ?_, found⟩
      have word_scan (starts : word.chars.head?.any isNameStart = true)
          (parts : word.chars.all isNamePart = true)
          (kind : Token.wordKind dialect word.chars = .keyword word) :
          Token.scan dialect ⟨offset + 1, word.chars ++ ' ' :: more⟩ false =
            .ok (.direct (.keyword word) word.chars (offset + 1) (' ' :: more)) := by
        rw [Token.scan_word starts parts rfl, kind]
      cases word
      case inWord | instanceofWord =>
        exact word_scan (by decide) (by decide) (by cases dialect <;> decide)
      all_goals cases found
  | _ => cases found

variable {settings : Settings}

/-- The tokens of a chain behind its first name. -/
theorem chainTail_behind (rest : List (Spelling × Text)) (offset : Nat)
    (isChain : ∀ link ∈ rest, link.1.operator?.isSome = true ∧ IsName settings.dialect link.2) :
    ∃ joints last, Behind settings last ⟨⟨offset, chainTail rest⟩, false⟩ joints ∧
      last.isEnd = true ∧ last.start.rest = [] ∧
      joints.map (fun joint => (joint.sign.text, joint.name.text)) =
        rest.map (fun link => (link.1.chars, link.2)) := by
  induction rest generalizing offset with
  | nil => exact ⟨[], _, .ends rfl, rfl, rfl, rfl⟩
  | cons link rest ih =>
      obtain ⟨spelling, name⟩ := link
      obtain ⟨isOperator, isName⟩ := isChain (spelling, name) (by simp)
      obtain ⟨kind, operator, scanned, found⟩ :=
        scan_operator settings.dialect offset (name ++ chainTail rest) isOperator
      let sign : Token := .direct kind spelling.chars (offset + 1) (' ' :: (name ++ chainTail rest))
      let operand : Token := .direct .identifier name (sign.stop.offset + 1) (chainTail rest)
      have nameScanned : (Point.after sign).next settings.dialect = .ok operand :=
        (Token.scan_space _ _ _ _).trans (isName.scan _ _ _)
      obtain ⟨joints, last, behind, isLast, atEnd, texts⟩ := ih operand.stop.offset
        fun other isOther => isChain other (List.mem_cons_of_mem _ isOther)
      refine ⟨⟨operator, sign, operand⟩ :: joints, last,
        .link scanned found nameScanned rfl behind, isLast, atEnd, ?_⟩
      rw [List.map_cons, List.map_cons, texts]
      rfl

/-- The text behind the tokens of a chain. -/
theorem Grammar.Behind.texts (sized : settings.size = Text.size settings.source) {last : Token}
    {point : Point} {joints : List Joint} (behind : Behind settings last point joints)
    (inText : point.InText settings) :
    (joints.flatMap fun joint => [joint.sign.span, joint.name.span]).map
        (·.text? settings.source) =
      (joints.flatMap fun joint => [joint.sign.text, joint.name.text]).map some := by
  induction behind with
  | ends => rfl
  | @link point joint joints run found operand isName later ih =>
      have middle := inText.after run
      simp [token_text sized inText run, token_text sized middle operand, ih (middle.after operand)]

theorem chainTail_size (rest : List (Spelling × Text)) :
    2 * rest.length ≤ Text.size (chainTail rest) := by
  induction rest with
  | nil => exact Nat.zero_le _
  | cons link rest ih =>
      have space := Char.utf8Size_pos ' '
      simp only [chainTail, List.length_cons, Text.size_cons, Text.size_append]
      omega

/-- Nothing but the end of a text is left in front of its last token. -/
theorem mayEndBefore_end {settings : Settings} {last : Token} (atEnd : last.start.rest = []) :
    mayEndBefore settings last = true := by
  have none : (Probe.ofPlace settings.size last.start).current = none := by
    simp [Probe.current, Probe.ofPlace, Place.current, atEnd]
  have admits : Outlook.admits ⟨last.gap, [.inferredEnd]⟩ .inferredEnd = true := rfl
  unfold mayEndBefore markAt Recognizer.inferredEnd
  rw [none, admits]
  rfl

/-- A chain is read as one expression, whose leaves are its words. -/
theorem chain_whole {settings : Settings} {first : Text} {rest : List (Spelling × Text)}
    (same : settings.source = chainText first rest)
    (sized : settings.size = Text.size settings.source) (unbounded : settings.limit = none)
    (isName : IsName settings.dialect first)
    (isChain : ∀ link ∈ rest, link.1.operator?.isSome = true ∧ IsName settings.dialect link.2) :
    ∃ name links tree, parseWith settings = .ok (.node (.rule .script) ⟨0, settings.size⟩
        [build .expressionStatement [tree]]) ∧
      Joins name links tree ∧
      (tree.leaves false).map (·.span.text? settings.source) =
        (chainWords first rest).map some := by
  let name : Token := .direct .identifier first 0 (chainTail rest)
  have scanned : (State.initial settings.source).point.next settings.dialect = .ok name := by
    change Token.scan settings.dialect ⟨0, settings.source⟩ true = _
    rw [same]
    exact isName.scan 0 rest true
  obtain ⟨joints, last, behind, isLast, atEnd, texts⟩ :=
    chainTail_behind rest name.stop.offset isChain
  have starts : Starts settings last name joints (State.initial settings.source) :=
    { faces := ⟨nofun, scanned⟩
      isName := rfl
      behind
      notAsync := rfl
      isIn := rfl
      isLast
      mayEnd := mayEndBefore_end atEnd
      unbounded }
  have enough : joints.length + 2 < stepsFor settings.size := by
    have counted : joints.length = rest.length := by simpa using congrArg List.length texts
    have long := chainTail_size rest
    rw [sized, same, chainText, Text.size_append, stepsFor]
    omega
  obtain ⟨tree, joins, run⟩ := starts.parseWith_whole enough
  refine ⟨_, _, tree, run, joins, ?_⟩
  have inText : (State.initial settings.source).point.InText settings :=
    fun _ => Place.On.first settings.source
  have firstText := token_text sized inText scanned
  have laterTexts := behind.texts sized (inText.after scanned)
  have words : (joints.flatMap fun joint => [joint.sign.text, joint.name.text]) =
      rest.flatMap fun link => [link.1.chars, link.2] := by
    have := congrArg (List.flatMap fun pair : Text × Text => [pair.1, pair.2]) texts
    simpa [List.flatMap_map] using this
  rw [words] at laterTexts
  rw [joins.leaves_eq, chainLeaves, chainWords, List.map_cons, List.map_cons, firstText,
    ← laterTexts]
  simp only [List.flatMap_map, List.map_flatMap]
  rfl

/-- Binary expressions are grouped by the levels of their operators in every
text that is read.  A chain of names and operators is read as one expression,
and no other tree with the same leaves is grouped so. -/
theorem parse_precedence (dialect : Dialect) :
    (∀ bounds source tree, parse ⟨dialect, bounds⟩ source = .ok tree →
      tree.Every (Grouped source)) ∧
    ∀ (bounds : Bounds) (first : Text) (rest : List (Spelling × Text)), bounds.limit = none →
      IsName dialect first →
      (∀ link ∈ rest, link.1.operator?.isSome = true ∧ IsName dialect link.2) →
      ∃ name links tree,
        parse ⟨dialect, bounds⟩ (chainText first rest) =
          .ok (.node (.rule .script) ⟨0, Text.size (chainText first rest)⟩
            [build .expressionStatement [tree]]) ∧
        Joins name links tree ∧
        (tree.leaves false).map (·.span.text? (chainText first rest)) =
          (chainWords first rest).map some ∧
        ∀ other, Joins name links other → other.Every (Grouped (chainText first rest)) →
          other = tree := by
  constructor
  · intro bounds source tree run
    exact parseWith_grouped rfl run
  · intro bounds first rest unbounded isName isChain
    let settings : Settings := .ofOptions ⟨dialect, bounds⟩ (chainText first rest)
    have same : settings.source = chainText first rest := rfl
    obtain ⟨name, links, tree, run, joins, leaves⟩ :=
      chain_whole same rfl unbounded isName isChain
    have grouped := parseWith_grouped rfl run
    have statement := grouped.of_child (build .expressionStatement [tree])
      (List.mem_singleton.mpr rfl)
    have inner := statement.of_child tree (by simp [build])
    exact ⟨name, links, tree, run, joins, leaves, fun other otherJoins otherGrouped =>
      otherJoins.unique joins otherGrouped inner⟩

/-- A power below a difference, with no bound on nesting. -/
theorem parse_precedence_power :
    (∀ link ∈ [(Spelling.punctuator .minus, ['b']), (.power, ['c'])],
      link.1.operator?.isSome = true ∧ IsName .script link.2) ∧
    ∃ name links tree,
      parse ⟨.script, ⟨none, 1, 2⟩⟩ "a - b ** c".toList =
        .ok (.node (.rule .script) ⟨0, 10⟩ [build .expressionStatement [tree]]) ∧
      Joins name links tree ∧ tree.Every (Grouped "a - b ** c".toList) ∧
      (tree.leaves false).map (·.span.text? "a - b ** c".toList) =
        ["a", "-", "b", "**", "c"].map fun word => some word.toList := by
  have isName (letter : Char) (isLetter : letter ∈ ['a', 'b', 'c']) :
      IsName .script [letter] := by
    simp only [List.mem_cons, List.not_mem_nil, or_false] at isLetter
    rcases isLetter with rfl | rfl | rfl <;> exact ⟨by decide, by decide, by decide⟩
  have isChain : ∀ link ∈ [(Spelling.punctuator .minus, ['b']), (.power, ['c'])],
      link.1.operator?.isSome = true ∧ IsName .script link.2 := by
    simpa using ⟨⟨by decide, isName 'b' (by simp)⟩, by decide, isName 'c' (by simp)⟩
  obtain ⟨grouped, accepted⟩ := parse_precedence .script
  obtain ⟨name, links, tree, run, joins, leaves, -⟩ :=
    accepted ⟨none, 1, 2⟩ ['a'] _ rfl (isName 'a' (by simp)) isChain
  have statement := (grouped _ _ _ run).of_child (build .expressionStatement [tree])
    (List.mem_singleton.mpr rfl)
  exact ⟨isChain, name, links, tree, run, joins, statement.of_child tree (by simp [build]), leaves⟩

end ScriptTree
