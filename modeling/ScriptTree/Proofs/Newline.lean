import Mathlib.Data.List.Basic
import ScriptTree.Literal.Escape

/-!
# Line breaks in template text

Template text may be normalized piece by piece, as long as no line break is cut
in two, and what its escapes stand for is the same before and after.
-/

namespace ScriptTree

namespace Escape

/-! ## Normalizing piece by piece -/

theorem normalizeNewlines_cons {character : Char} (other : character ≠ '\r') (rest : Text) :
    normalizeNewlines (character :: rest) = character :: normalizeNewlines rest := by
  rw [normalizeNewlines]
  · exact fun _ same _ => other same
  · exact other

theorem normalizeNewlines_return {rest : Text} (alone : rest.head? ≠ some '\n') :
    normalizeNewlines ('\r' :: rest) = '\n' :: normalizeNewlines rest := by
  cases rest with
  | nil => rfl
  | cons next rest =>
      rw [normalizeNewlines]
      rintro more same
      cases same
      exact alone rfl

/-- Normalizing the parts of a text is normalizing the whole, unless a line
break is cut in two. -/
theorem normalizeNewlines_append {first second : Text}
    (seam : first.getLast? = some '\r' → second.head? ≠ some '\n') :
    normalizeNewlines (first ++ second) =
      normalizeNewlines first ++ normalizeNewlines second := by
  fun_induction normalizeNewlines first with
  | case1 rest ih =>
      have later : rest.getLast? = some '\r' → second.head? ≠ some '\n' := by
        intro ends
        apply seam
        simp [List.getLast?_cons, ends]
      rw [List.cons_append, List.cons_append, normalizeNewlines, ih later, List.cons_append]
  | case2 rest alone ih =>
      have later : rest.getLast? = some '\r' → second.head? ≠ some '\n' := by
        intro ends
        apply seam
        simp [List.getLast?_cons, ends]
      have starts : (rest ++ second).head? ≠ some '\n' := by
        cases rest with
        | nil => exact seam rfl
        | cons next more =>
            intro same
            cases same
            exact alone more rfl
      rw [List.cons_append, normalizeNewlines_return starts, ih later, List.cons_append]
  | case3 character rest _ other ih =>
      have later : rest.getLast? = some '\r' → second.head? ≠ some '\n' := by
        intro ends
        apply seam
        simp [List.getLast?_cons, ends]
      rw [List.cons_append, normalizeNewlines_cons other, ih later, List.cons_append]
  | case4 => rfl

theorem normalizeNewlines_of_not_mem {text : Text} (noReturn : '\r' ∉ text) :
    normalizeNewlines text = text := by
  induction text with
  | nil => rfl
  | cons character rest ih =>
      have other : character ≠ '\r' := fun same => noReturn (by simp [same])
      have later : '\r' ∉ rest := fun isIn => noReturn (by simp [isIn])
      rw [normalizeNewlines_cons other, ih later]

theorem normalizeNewlines_not_mem (text : Text) : '\r' ∉ normalizeNewlines text := by
  fun_induction normalizeNewlines text with
  | case1 rest ih => simp [ih]
  | case2 rest other ih => simp [ih]
  | case3 character rest _ other ih =>
      intro isIn
      rcases List.mem_cons.mp isIn with same | later
      · exact other same.symm
      · exact ih later
  | case4 => simp

theorem normalizeNewlines_starts (rest : Text) :
    ∃ more, normalizeNewlines ('\r' :: rest) = '\n' :: more := by
  by_cases paired : rest.head? = some '\n'
  · obtain ⟨more, rfl⟩ := List.head?_eq_some_iff.mp paired
    exact ⟨_, rfl⟩
  · exact ⟨_, normalizeNewlines_return paired⟩

/-! ## Escapes in normalized text -/

abbrev restNormalized {Value : Type} (found : Value × Text) : Value × Text :=
  (found.1, normalizeNewlines found.2)

theorem digitOf?_return (base : Nat) : digitOf? base '\r' = none :=
  rfl

theorem digitOf?_newline (base : Nat) : digitOf? base '\n' = none :=
  rfl

theorem hexDigits?_normalizeNewlines (count value : Nat) (text : Text) :
    hexDigits? count value (normalizeNewlines text) =
      (hexDigits? count value text).map restNormalized := by
  induction count generalizing value text with
  | zero => rw [hexDigits?, hexDigits?, Option.map_some]
  | succ count ih =>
      cases text with
      | nil => rfl
      | cons character rest =>
          by_cases isReturn : character = '\r'
          · obtain ⟨more, same⟩ := normalizeNewlines_starts rest
            rw [isReturn, same, hexDigits?, hexDigits?, digitOf?_return, digitOf?_newline]
            rfl
          · rw [normalizeNewlines_cons isReturn, hexDigits?, hexDigits?]
            cases digitOf? 16 character with
            | none => rfl
            | some digit => exact ih _ _

theorem codePoint_normalizeNewlines (count value : Nat) (text : Text) :
    codePoint count value (normalizeNewlines text) =
      (codePoint count value text).map restNormalized := by
  induction text generalizing count value with
  | nil => rfl
  | cons character rest ih =>
      by_cases isReturn : character = '\r'
      · obtain ⟨more, same⟩ := normalizeNewlines_starts rest
        rw [isReturn, same, codePoint, codePoint, if_neg (by simp), if_neg (by simp),
          digitOf?_return, digitOf?_newline]
        rfl
      · rw [normalizeNewlines_cons isReturn, codePoint, codePoint]
        split
        · rfl
        · cases digitOf? 16 character with
          | none => rfl
          | some digit =>
              dsimp only
              split
              · rfl
              · exact ih _ _

theorem unicode_of_ne {character : Char} (other : character ≠ '\x7b') (rest : Text) :
    unicode (character :: rest) =
      match hexDigits? 4 0 (character :: rest) with
      | some (unit, after) => .ok ([unit], after)
      | none => .error .malformedUnitEscape := by
  have never (more : Text) (same : character :: rest = '\x7b' :: more) : False :=
    other (List.cons.inj same).1
  exact (unicode.eq_2 _ never).trans rfl

theorem unicode_normalizeNewlines (text : Text) :
    unicode (normalizeNewlines text) = (unicode text).map restNormalized := by
  cases text with
  | nil => rfl
  | cons character rest =>
      by_cases opens : character = '\x7b'
      · subst opens
        rw [normalizeNewlines_cons (by decide), unicode, unicode, codePoint_normalizeNewlines]
        cases codePoint 0 0 rest <;> rfl
      · -- A line break starts no braces either.
        obtain ⟨first, more, same, noBrace⟩ : ∃ first more,
            normalizeNewlines (character :: rest) = first :: more ∧ first ≠ '\x7b' := by
          by_cases isReturn : character = '\r'
          · obtain ⟨more, same⟩ := normalizeNewlines_starts rest
            exact ⟨'\n', more, isReturn ▸ same, by decide⟩
          · exact ⟨character, _, normalizeNewlines_cons isReturn rest, opens⟩
        have digits := hexDigits?_normalizeNewlines 4 0 (character :: rest)
        rw [same] at digits ⊢
        rw [unicode_of_ne noBrace, unicode_of_ne opens, digits]
        cases hexDigits? 4 0 (character :: rest) <;> rfl

theorem startsDigit_normalizeNewlines (text : Text) :
    (normalizeNewlines text).head?.any Char.isDigit = text.head?.any Char.isDigit := by
  cases text with
  | nil => rfl
  | cons character rest =>
      by_cases isReturn : character = '\r'
      · obtain ⟨more, same⟩ := normalizeNewlines_starts rest
        rw [isReturn, same]
        rfl
      · rw [normalizeNewlines_cons isReturn]
        rfl

theorem digit_normalizeNewlines (character : Char) (rest : Text) :
    digit .template character (normalizeNewlines rest) =
      (digit .template character rest).map restNormalized := by
  unfold digit
  rw [startsDigit_normalizeNewlines]
  split
  · rfl
  · rw [if_pos rfl, if_pos rfl]
    rfl

def letters : List Char :=
  ['n', 't', 'r', 'b', 'f', 'v', 'x', 'u']

theorem read_of_not_mem {flavor : Flavor} {character : Char} {rest : Text}
    (plain : character ∉ letters) (alone : character = '\r' → rest.head? ≠ some '\n') :
    read flavor (character :: rest) =
      if isNewline character then .ok ([], rest)
      else if character.isDigit then digit flavor character rest
      else .ok (Units.ofChar character, rest) := by
  rw [read]
  case x_9 =>
    rintro more isReturn rfl
    exact alone isReturn rfl
  all_goals
    rintro rfl
    exact plain (by decide)

theorem read_return {flavor : Flavor} {rest : Text} (alone : rest.head? ≠ some '\n') :
    read flavor ('\r' :: rest) = .ok ([], rest) :=
  read_of_not_mem (by decide) fun _ => alone

/-- What an escape stands for does not depend on how line breaks are
written. -/
theorem read_normalizeNewlines (text : Text) :
    read .template (normalizeNewlines text) = (read .template text).map restNormalized := by
  cases text with
  | nil => rfl
  | cons character rest =>
      by_cases special : character ∈ letters
      · simp only [letters, List.mem_cons, List.not_mem_nil, or_false] at special
        rcases special with rfl | rfl | rfl | rfl | rfl | rfl | rfl | rfl
        case inr.inr.inr.inr.inr.inr.inl =>
          rw [normalizeNewlines_cons (by decide), read, read, hexDigits?_normalizeNewlines]
          cases hexDigits? 2 0 rest <;> rfl
        case inr.inr.inr.inr.inr.inr.inr =>
          rw [normalizeNewlines_cons (by decide), read, read]
          exact unicode_normalizeNewlines rest
        all_goals
          rw [normalizeNewlines_cons (by decide)]
          rfl
      · by_cases isReturn : character = '\r'
        · subst isReturn
          by_cases paired : rest.head? = some '\n'
          · obtain ⟨more, rfl⟩ := List.head?_eq_some_iff.mp paired
            rfl
          · rw [normalizeNewlines_return paired, read_return paired]
            rfl
        · have alone {more : Text} : character = '\r' → more.head? ≠ some '\n' :=
            fun same => absurd same isReturn
          rw [normalizeNewlines_cons isReturn, read_of_not_mem special alone,
            read_of_not_mem special alone]
          split
          · rfl
          · split
            · exact digit_normalizeNewlines character rest
            · rfl

/-! ## What is left after an escape -/

theorem hexDigits?_length {count value number : Nat} {text after : Text}
    (run : hexDigits? count value text = some (number, after)) : after.length ≤ text.length := by
  induction count generalizing value text with
  | zero =>
      cases run
      exact Nat.le_refl _
  | succ count ih =>
      cases text with
      | nil => cases run
      | cons character rest =>
          rw [hexDigits?] at run
          obtain ⟨digit, -, run⟩ := Option.bind_eq_some_iff.mp run
          have := ih run
          rw [List.length_cons]
          omega

theorem codePoint_length {count value number : Nat} {text after : Text}
    (run : codePoint count value text = .ok (number, after)) : after.length ≤ text.length := by
  induction text generalizing count value with
  | nil => cases run
  | cons character rest ih =>
      rw [List.length_cons]
      rw [codePoint] at run
      split at run
      · cases run
        omega
      · split at run
        · cases run
        · split at run
          · cases run
          · have := ih run
            omega

theorem unicode_length {text after : Text} {units : List Nat}
    (run : unicode text = .ok (units, after)) : after.length ≤ text.length := by
  unfold unicode at run
  split at run
  · rename_i rest
    cases found : codePoint 0 0 rest with
    | error flaw =>
        rw [found] at run
        cases run
    | ok result =>
        rw [found] at run
        cases run
        have := codePoint_length found
        rw [List.length_cons]
        omega
  · split at run
    · rename_i found
      cases run
      exact hexDigits?_length found
    · cases run

theorem digit_length {character : Char} {rest after : Text} {units : List Nat}
    (run : digit .template character rest = .ok (units, after)) : after.length ≤ rest.length := by
  unfold digit at run
  split at run
  · cases run
    exact Nat.le_refl _
  · rw [if_pos rfl] at run
    cases run

theorem read_length {text after : Text} {units : List Nat}
    (run : read .template text = .ok (units, after)) : after.length ≤ text.length := by
  unfold read at run
  split at run
  case h_1 => cases run
  case h_8 rest =>
    split at run
    · rename_i found
      cases run
      have := hexDigits?_length found
      rw [List.length_cons]
      omega
    · cases run
  case h_9 rest =>
    have := unicode_length run
    rw [List.length_cons]
    omega
  case h_11 rest _ _ _ _ _ _ _ _ _ =>
    rw [List.length_cons]
    split at run
    · cases run
      omega
    · split at run
      · have := digit_length run
        omega
      · cases run
        omega
  -- The other escapes stand for one character or none.
  all_goals
    cases run
    simp only [List.length_cons]
    omega

/-! ## Cooking -/

theorem unitsFrom_plain {character : Char} (plain : character ≠ '\\') (other : character ≠ '\r')
    (fuel : Nat) (rest : Text) :
    unitsFrom .template (fuel + 1) (character :: rest) =
      (unitsFrom .template fuel rest).map (Units.ofChar character ++ ·) := by
  rw [unitsFrom]
  · rw [if_neg fun both => other both.2]
  · exact plain

theorem unitsFrom_return (fuel : Nat) (rest : Text) :
    unitsFrom .template (fuel + 1) ('\r' :: rest) =
      (unitsFrom .template fuel (if rest.head? = some '\n' then rest.tail else rest)).map
        (0x0A :: ·) := by
  rw [unitsFrom]
  · rw [if_pos ⟨rfl, rfl⟩]
  · decide

/-- The rest of a text behind a carriage return and the line feed that belongs
to it. -/
theorem normalizeNewlines_behind (rest : Text) :
    normalizeNewlines ('\r' :: rest) =
      '\n' :: normalizeNewlines (if rest.head? = some '\n' then rest.tail else rest) := by
  by_cases paired : rest.head? = some '\n'
  · obtain ⟨more, rfl⟩ := List.head?_eq_some_iff.mp paired
    rfl
  · rw [if_neg paired, normalizeNewlines_return paired]

theorem length_behind (rest : Text) :
    (if rest.head? = some '\n' then rest.tail else rest).length ≤ rest.length := by
  split
  · rw [List.length_tail]
    omega
  · exact Nat.le_refl _

/-- Reading a normalized text into code units gives what reading the text itself
does, if the steps are enough for both. -/
theorem unitsFrom_normalizeNewlines {text : Text} {fuel more : Nat} (enough : text.length ≤ fuel)
    (enoughLeft : (normalizeNewlines text).length ≤ more) :
    unitsFrom .template more (normalizeNewlines text) = unitsFrom .template fuel text := by
  induction fuel generalizing text more with
  | zero =>
      obtain rfl := List.length_eq_zero_iff.mp (Nat.le_zero.mp enough)
      cases more <;> rfl
  | succ fuel ih =>
      cases text with
      | nil => cases more <;> rfl
      | cons character rest =>
          rw [List.length_cons] at enough
          by_cases isReturn : character = '\r'
          · subst isReturn
            rw [normalizeNewlines_behind, List.length_cons] at enoughLeft
            have shorter := length_behind rest
            obtain ⟨more, rfl⟩ : ∃ fewer, more = fewer + 1 := ⟨more - 1, by omega⟩
            rw [normalizeNewlines_behind, unitsFrom_plain (by decide) (by decide),
              unitsFrom_return, ih (by omega) (by omega)]
            rfl
          · rw [normalizeNewlines_cons isReturn, List.length_cons] at enoughLeft
            obtain ⟨more, rfl⟩ : ∃ fewer, more = fewer + 1 := ⟨more - 1, by omega⟩
            rw [normalizeNewlines_cons isReturn]
            by_cases escapes : character = '\\'
            · subst escapes
              rw [unitsFrom, unitsFrom, read_normalizeNewlines]
              cases found : read .template rest with
              | error flaw => rfl
              | ok result =>
                  obtain ⟨units, after⟩ := result
                  have shorter := read_length found
                  have normalized := read_normalizeNewlines rest
                  rw [found] at normalized
                  have shorterLeft : (normalizeNewlines after).length ≤ _ := read_length normalized
                  have same := @ih after more (by omega) (by omega)
                  change (unitsFrom .template more (normalizeNewlines after)).bind _ = _
                  rw [same]
                  rfl
            · rw [unitsFrom_plain escapes isReturn, unitsFrom_plain escapes isReturn,
                ih (by omega) (by omega)]

theorem cook_normalizeNewlines (text : Text) :
    cook .template (normalizeNewlines text) = cook .template text := by
  unfold cook
  rw [unitsFrom_normalizeNewlines (Nat.le_refl _) (Nat.le_refl _)]

theorem normalizeNewlines_idem (text : Text) :
    normalizeNewlines (normalizeNewlines text) = normalizeNewlines text :=
  normalizeNewlines_of_not_mem (normalizeNewlines_not_mem text)

end Escape

/-- Normalizing a text first does not change its two forms. -/
theorem TemplateText.ofText_normalizeNewlines (text : Text) :
    TemplateText.ofText (Escape.normalizeNewlines text) = .ofText text := by
  unfold TemplateText.ofText
  rw [Escape.normalizeNewlines_idem, Escape.cook_normalizeNewlines]

end ScriptTree
