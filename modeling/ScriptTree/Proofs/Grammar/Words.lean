import ScriptTree.Proofs.Grammar.Derivation
import ScriptTree.Proofs.Spaced

/-!
# Words between two points

Where words and signs stand with single spaces between them, they are scanned
one after another, each as one token with no break in front of it.
-/

namespace ScriptTree

/-- A token is scanned from the given text, with nothing but spaces in front
of it. -/
structure Token.Is (dialect : Dialect) (text : Text) (token : Token) : Prop where
  kind : token.kind = Token.kindOf dialect text
  spelling : token.text = text
  gap : token.gap = .plain
  start : token.start.rest = text ++ token.stop.rest

theorem Token.is_direct (dialect : Dialect) (offset : Nat) (text more : Text) :
    (Token.direct (Token.kindOf dialect text) text offset more).Is dialect text :=
  ⟨rfl, rfl, rfl, rfl⟩

namespace Grammar

variable {settings : Settings} {point middle last : Point} {first second text : Text}
  {words others : List Text}

/-- Words are scanned one after another between two points. -/
inductive Words (settings : Settings) : Point → List Text → Point → Prop where
  | nil {point : Point} : Words settings point [] point
  | cons {point last : Point} {token : Token} {text : Text} {words : List Text}
      (next : point.next settings.dialect = .ok token) (is : token.Is settings.dialect text)
      (rest : Words settings (.after token) words last) : Words settings point (text :: words) last

namespace Words

theorem append_cases (all : Words settings point (words ++ others) last) :
    ∃ middle, Words settings point words middle ∧ Words settings middle others last := by
  induction words generalizing point with
  | nil => exact ⟨point, .nil, all⟩
  | cons text words ih =>
      cases all with
      | cons next is rest =>
          obtain ⟨middle, front, behind⟩ := ih rest
          exact ⟨middle, .cons next is front, behind⟩

theorem inText (all : Words settings point words last) (inText : point.InText settings) :
    last.InText settings := by
  induction all with
  | nil => exact inText
  | cons next _ _ ih => exact ih (inText.after next)

theorem cons_cases (all : Words settings point (text :: words) last) :
    ∃ token, point.next settings.dialect = .ok token ∧ token.Is settings.dialect text ∧
      Words settings (.after token) words last := by
  cases all with
  | cons next is rest => exact ⟨_, next, is, rest⟩

/-- A sign comes next. -/
theorem sign_cases (sign : Punctuator) (all : Words settings point (sign.chars :: words) last) :
    ∃ token, point.next settings.dialect = .ok token ∧ token.kind = .punctuator sign ∧
      Words settings (.after token) words last := by
  obtain ⟨token, next, is, rest⟩ := all.cons_cases
  exact ⟨token, next, is.kind.trans (Token.kindOf_sign _ sign), rest⟩

/-- The last of some words is a sign. -/
theorem last_sign (sign : Punctuator) (all : Words settings point [sign.chars] last) :
    ∃ token, point.next settings.dialect = .ok token ∧ token.kind = .punctuator sign ∧
      last = .after token := by
  obtain ⟨token, next, kind, rest⟩ := all.sign_cases sign
  cases rest
  exact ⟨token, next, kind, rfl⟩

end Words

/-- Nothing is skipped but one space. -/
theorem Point.next_space (offset : Nat) (rest : Text) (patternAllowed : Bool) (dialect : Dialect) :
    Point.next ⟨⟨offset, ' ' :: rest⟩, patternAllowed⟩ dialect =
      Point.next ⟨⟨offset + 1, rest⟩, patternAllowed⟩ dialect :=
  Token.scan_space dialect offset rest patternAllowed

/-- Words with single spaces in front of them are scanned one after another. -/
theorem words_tail {more : Text} (parted : Token.Parted more) (offset : Nat)
    {patternAllowed : Bool} (paced : isPaced settings.dialect patternAllowed words = true) :
    ∃ last, Words settings ⟨⟨offset, spacedTail more words⟩, patternAllowed⟩ words last ∧
      last.place.rest = more := by
  induction words generalizing offset patternAllowed with
  | nil => exact ⟨_, .nil, rfl⟩
  | cons text words ih =>
      obtain ⟨scannable, later⟩ := Bool.and_eq_true_iff.mp paced
      have scanned : Token.scan settings.dialect ⟨offset + 1, text ++ spacedTail more words⟩
          patternAllowed = _ := Token.scan_scannable scannable (spacedTail_parted parted words)
      obtain ⟨last, rest, ends⟩ := ih (offset + 1 + Text.size text) later
      exact ⟨last, .cons ((Point.next_space _ _ _ _).trans scanned) (Token.is_direct _ _ _ _) rest,
        ends⟩

/-- Words with single spaces between them are scanned one after another. -/
theorem words_spaced {more : Text} (parted : Token.Parted more) (offset : Nat)
    {patternAllowed : Bool} (paced : isPaced settings.dialect patternAllowed words = true) :
    ∃ last, Words settings ⟨⟨offset, [' '].intercalate words ++ more⟩, patternAllowed⟩ words last ∧
      last.place.rest = more := by
  cases words with
  | nil => exact ⟨_, .nil, rfl⟩
  | cons text words =>
      rw [spaced_cons]
      obtain ⟨scannable, later⟩ := Bool.and_eq_true_iff.mp paced
      obtain ⟨last, rest, ends⟩ := words_tail parted (offset + Text.size text) later
      exact ⟨last, .cons (Token.scan_scannable scannable (spacedTail_parted parted words))
        (Token.is_direct _ _ _ _) rest, ends⟩

end Grammar

end ScriptTree
