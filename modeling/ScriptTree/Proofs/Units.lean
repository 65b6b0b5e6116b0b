import ScriptTree.Text.Units

/-!
# Decoding code units

Decoding joins the two units of a character beyond U+FFFF, and a unit of a pair
that stands alone becomes the replacement character.
-/

namespace ScriptTree

namespace Units

/-- Texts that code units are decoded into. -/
inductive Decodes : List Nat → Text → Prop where
  | none : Decodes [] []
  | character {units : List Nat} {text : Text} (character : Char) (later : Decodes units text) :
      Decodes (ofChar character ++ units) (character :: text)
  | unpaired {unit : Nat} {units : List Nat} {text : Text}
      (alone : isLow unit = true ∨ isHigh unit = true ∧ units.head?.any isLow = false)
      (later : Decodes units text) : Decodes (unit :: units) ('\uFFFD' :: text)

theorem toNat_valid (character : Char) :
    character.toNat < 0xD800 ∨ 0xDFFF < character.toNat ∧ character.toNat < 0x110000 :=
  character.valid

theorem toNat_ofNat {code : Nat} (valid : code.isValidChar) : (Char.ofNat code).toNat = code := by
  unfold Char.ofNat
  rw [dif_pos valid]
  rfl

theorem decode_single {unit : Nat} {units : List Nat}
    (alone : (isHigh unit && units.head?.any isLow) = false) :
    decode (unit :: units) = single unit :: decode units := by
  cases units with
  | nil => rfl
  | cons second rest =>
      rw [decode, if_neg]
      simpa using alone

theorem ofChar_small {character : Char} (small : character.toNat < 0x10000) :
    ofChar character = [character.toNat] := by
  simp [ofChar, small]

theorem single_toNat {character : Char} (small : character.toNat < 0x10000) :
    single character.toNat = character := by
  have valid := toNat_valid character
  have whole : (isHigh character.toNat || isLow character.toNat) = false := by
    simp only [isHigh, isLow, Bool.or_eq_false_iff, Bool.and_eq_false_iff, decide_eq_false_iff_not]
    omega
  rw [single, whole]
  exact Char.ofNat_toNat character

theorem ofChar_large_eq {character : Char} (large : ¬character.toNat < 0x10000) :
    ofChar character = [0xD800 + (character.toNat - 0x10000) / 0x400,
      0xDC00 + (character.toNat - 0x10000) % 0x400] := by
  simp [ofChar, large]

/-- A character beyond U+FFFF is joined from its two units. -/
theorem ofChar_large {character : Char} (large : ¬character.toNat < 0x10000) :
    ∃ high low, ofChar character = [high, low] ∧ isHigh high = true ∧ isLow low = true ∧
      joined high low = character := by
  have valid := toNat_valid character
  refine ⟨_, _, ofChar_large_eq large, ?_, ?_, ?_⟩
  · simp only [isHigh, Bool.and_eq_true, decide_eq_true_eq]
    omega
  · simp only [isLow, Bool.and_eq_true, decide_eq_true_eq]
    omega
  · refine Eq.trans (congrArg Char.ofNat ?_) (Char.ofNat_toNat character)
    omega

theorem joined_units {high low : Nat} (isHigh : isHigh high = true) (isLow : isLow low = true) :
    ofChar (joined high low) = [high, low] := by
  simp only [Units.isHigh, Units.isLow, Bool.and_eq_true, decide_eq_true_eq] at isHigh isLow
  have valid : (0x10000 + (high - 0xD800) * 0x400 + (low - 0xDC00)).isValidChar :=
    .inr (by omega)
  have code : (joined high low).toNat = 0x10000 + (high - 0xD800) * 0x400 + (low - 0xDC00) := by
    unfold joined
    exact toNat_ofNat valid
  have large : ¬(joined high low).toNat < 0x10000 := by omega
  rw [ofChar_large_eq large, code, List.cons.injEq, List.cons.injEq]
  exact ⟨by omega, by omega, rfl⟩

theorem Decodes.decode_eq {units : List Nat} {text : Text} (decodes : Decodes units text) :
    decode units = text := by
  induction decodes with
  | none => rfl
  | @character units text character later ih =>
      by_cases small : character.toNat < 0x10000
      · have valid := toNat_valid character
        rw [ofChar_small small, List.singleton_append, decode_single, single_toNat small, ih]
        simp only [isHigh, Bool.and_eq_false_iff, decide_eq_false_iff_not]
        omega
      · obtain ⟨high, low, parts, isHigh, isLow, same⟩ := ofChar_large small
        rw [parts, List.cons_append, List.singleton_append, decode,
          if_pos (Bool.and_eq_true_iff.mpr ⟨isHigh, isLow⟩), same, ih]
  | @unpaired unit units text alone later ih =>
      have half : (isHigh unit || isLow unit) = true := by
        rcases alone with isLow | ⟨isHigh, -⟩
        · simp [isLow]
        · simp [isHigh]
      rw [decode_single, ih, single, half, if_pos rfl]
      rcases alone with isLow | ⟨-, last⟩
      · simp only [Units.isLow, isHigh, Bool.and_eq_true, decide_eq_true_eq] at isLow ⊢
        simp only [Bool.and_eq_false_iff, decide_eq_false_iff_not]
        omega
      · simp [last]

theorem decode_decodes {units : List Nat} (bounded : ∀ unit ∈ units, unit < 0x10000) :
    Decodes units (decode units) := by
  have alone {unit : Nat} {units : List Nat} (small : unit < 0x10000)
      (last : (isHigh unit && units.head?.any isLow) = false)
      (later : Decodes units (decode units)) :
      Decodes (unit :: units) (single unit :: decode units) := by
    by_cases half : (isHigh unit || isLow unit) = true
    · rw [single, half, if_pos rfl]
      refine .unpaired ?_ later
      cases isLow : isLow unit with
      | true => exact .inl rfl
      | false =>
          have isHigh : isHigh unit = true := by simpa [isLow] using half
          exact .inr ⟨isHigh, by simpa [isHigh] using last⟩
    · have whole : ¬(0xD800 ≤ unit ∧ unit < 0xE000) := by
        simp only [isHigh, isLow, Bool.or_eq_true, Bool.and_eq_true, decide_eq_true_eq] at half
        omega
      have valid : unit.isValidChar := by
        by_cases low : unit < 0xD800
        · exact .inl low
        · exact .inr (by omega)
      have code := toNat_ofNat valid
      have decodes := Decodes.character (Char.ofNat unit) later
      rw [ofChar_small (by omega), code] at decodes
      rw [single, if_neg half]
      exact decodes
  fun_induction decode units with
  | case1 => exact .none
  | case2 unit => exact alone (bounded unit (by simp)) (by simp) .none
  | case3 first second rest pair ih =>
      obtain ⟨isHigh, isLow⟩ := Bool.and_eq_true_iff.mp pair
      have decodes := Decodes.character (joined first second)
        (ih fun unit isIn => bounded unit (by simp [isIn]))
      rwa [joined_units isHigh isLow] at decodes
  | case4 first second rest notPair ih =>
      refine alone (bounded first (by simp)) (by simpa using notPair) ?_
      exact ih fun unit isIn => bounded unit (List.mem_cons_of_mem first isIn)

/-- Units of 16 bits are decoded into one text. -/
theorem decodes_iff {units : List Nat} {text : Text} (bounded : ∀ unit ∈ units, unit < 0x10000) :
    Decodes units text ↔ text = decode units := by
  refine ⟨fun decodes => decodes.decode_eq.symm, ?_⟩
  rintro rfl
  exact decode_decodes bounded

theorem ofChar_bounded (character : Char) : ∀ unit ∈ ofChar character, unit < 0x10000 := by
  have valid := toNat_valid character
  by_cases small : character.toNat < 0x10000
  · rw [ofChar_small small]
    simpa using small
  · rw [ofChar_large_eq small]
    simp only [List.forall_mem_cons]
    exact ⟨by omega, by omega, by simp⟩

end Units

end ScriptTree
