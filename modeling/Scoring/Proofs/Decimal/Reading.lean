import Mathlib.Algebra.Order.Field.Power
import Mathlib.Tactic.Linarith
import Mathlib.Tactic.Ring
import Scoring.Decimal.Literal
import Scoring.Decimal.Text
import Scoring.Proofs.Decimal.Shortest

/-!
# Reading — a written word is read back

What is written without an exponent is read as the literal of its digits and its point, the literal stands for the same
number, and that number goes to the word that was written (`word_shortestText`). So no two words share a text.
-/

namespace Scoring.Decimal

/-! ## 1. Digits, a point, digits -/

theorem span_digits {ds : List Char} (hds : ∀ c ∈ ds, c.isDigit = true) (rest : List Char)
    (hrest : ∀ c ∈ rest.head?, c.isDigit = false) : (ds ++ rest).span Char.isDigit = (ds, rest) := by
  rw [List.span_eq_takeWhile_dropWhile, List.takeWhile_append_of_pos hds, List.dropWhile_append_of_pos hds]
  cases rest with
  | nil => simp
  | cons c cs =>
    have hc := hrest c rfl
    rw [List.takeWhile_cons_of_neg (by simp [hc]), List.dropWhile_cons_of_neg (by simp [hc]), List.append_nil]

namespace Scientific

def value (x : Scientific) : ℚ :=
  x.coefficient * 10 ^ x.exponent

theorem ofChars?_whole {ds : List Char} (hne : ds ≠ []) (hds : ∀ c ∈ ds, c.isDigit = true) :
    ofChars? ds = some ⟨natOfDigits ds, 0⟩ := by
  have hspan := span_digits hds [] (by simp)
  rw [List.append_nil] at hspan
  unfold ofChars?
  rw [hspan]
  simp [hne, exponentPart?]

theorem ofChars?_fraction {ds es : List Char} (hne : ds ≠ []) (hds : ∀ c ∈ ds, c.isDigit = true)
    (hes : ∀ c ∈ es, c.isDigit = true) :
    ofChars? (ds ++ '.' :: es) = some ⟨natOfDigits (ds ++ es), -es.length⟩ := by
  have hspan := span_digits hds ('.' :: es) (by simp)
  have hspan' := span_digits hes [] (by simp)
  rw [List.append_nil] at hspan'
  unfold ofChars?
  rw [hspan]
  simp only [hspan']
  simp [hne, exponentPart?]

/-- Digits written with a point and no exponent are read as the number that they write. -/
theorem ofChars?_positional {d : Digits} (hd : d.Proper) :
    ∃ x, ofChars? (d.positional false) = some x ∧ x.value = d.value := by
  have hzero : '0'.isDigit = true := rfl
  unfold Digits.positional Digits.value
  simp only
  split
  · -- zeros stand between the point and the digits
    refine ⟨_, ofChars?_fraction (show ['0'] ≠ [] by simp) (by simp [hzero]) ?_, ?_⟩
    · intro c hc
      rcases List.mem_append.mp hc with hc | hc
      · rw [List.eq_of_mem_replicate hc]
        exact hzero
      · exact hd.digit c hc
    · have hdigits : natOfDigits (['0'] ++ (List.replicate d.point.natAbs '0' ++ d.digits)) = natOfDigits d.digits :=
        natOfDigits_zeros_append (d.point.natAbs + 1) d.digits
      unfold value
      rw [hdigits, List.length_append, List.length_replicate]
      congr 2
      show -((d.point.natAbs + d.digits.length : Nat) : Int) = d.point - d.digits.length
      omega
  · split
    · -- zeros fill up the places before the point
      rename_i hpos hle
      refine ⟨_, ofChars?_whole ?_ ?_, ?_⟩
      · simp [hd.nonempty]
      · intro c hc
        simp only [Bool.false_eq_true, if_false, List.append_nil] at hc
        rcases List.mem_append.mp hc with hc | hc
        · exact hd.digit c hc
        · rw [List.eq_of_mem_replicate hc]
          exact hzero
      · simp only [value, Bool.false_eq_true, if_false, List.append_nil]
        rw [natOfDigits_append, natOfDigits_zeros, List.length_replicate, Nat.add_zero, zpow_zero, mul_one,
          Nat.cast_mul, Nat.cast_pow, Nat.cast_ofNat, ← zpow_natCast]
        congr 2
        omega
    · rename_i hpos hlt
      refine ⟨_, ofChars?_fraction (show d.digits.take d.point.toNat ≠ [] from ?_) ?_ ?_, ?_⟩
      · rw [Ne, List.take_eq_nil_iff]
        exact not_or.mpr ⟨by omega, hd.nonempty⟩
      · exact fun c hc => hd.digit c (List.mem_of_mem_take hc)
      · exact fun c hc => hd.digit c (List.mem_of_mem_drop hc)
      · unfold value
        rw [List.take_append_drop, List.length_drop]
        congr 2
        show -((d.digits.length - d.point.toNat : Nat) : Int) = d.point - d.digits.length
        omega

end Scientific

/-! ## 2. Signs and words -/

theorem Digits.Proper.positional_eq_cons {d : Digits} (hd : d.Proper) :
    ∃ c cs, d.positional false = c :: cs ∧ c.isDigit = true := by
  obtain ⟨c, cs, hcs⟩ := List.exists_cons_of_ne_nil hd.nonempty
  have hc : c.isDigit = true := hd.digit c (by rw [hcs]; exact List.mem_cons_self)
  unfold Digits.positional
  simp only
  split
  · exact ⟨'0', _, rfl, rfl⟩
  · split
    · exact ⟨c, _, by rw [hcs]; rfl, hc⟩
    · rename_i hpos _
      obtain ⟨n, hn⟩ : ∃ n, d.point.toNat = n + 1 := Nat.exists_eq_succ_of_ne_zero (by omega)
      exact ⟨c, _, by rw [hcs, hn]; rfl, hc⟩

/-- A text that starts with a digit behind its sign is a number, not one of the words. -/
theorem ofString?_of_digit {s : String} {negative : Bool} {c : Char} {cs : List Char}
    (hsplit : splitSign s.toList = (negative, c :: cs)) (hc : c.isDigit = true) :
    Literal.ofString? s = (Scientific.ofChars? (c :: cs)).map (.finite negative) := by
  have hself : c.toLower = c := by
    have hrange := hc
    simp only [Char.isDigit, Bool.and_eq_true, decide_eq_true_eq, UInt32.le_iff_toNat_le] at hrange
    unfold Char.toLower
    rw [dif_neg]
    rintro ⟨hA, -⟩
    rw [ge_iff_le, UInt32.le_iff_toNat_le] at hA
    exact absurd (hA.trans hrange.2) (by decide)
  have hlower : ∀ w : Char, w.isDigit = false → c.toLower ≠ w := by
    intro w hw heq
    rw [← heq, hself, hc] at hw
    cases hw
  unfold Literal.ofString?
  rw [hsplit]
  simp only
  rw [if_neg, if_neg]
  · simp [hlower 'i' rfl]
  · simp [hlower 'n' rfl]

theorem splitSign_of_digit {c : Char} (hc : c.isDigit = true) (cs : List Char) :
    splitSign (c :: cs) = (false, c :: cs) := by
  unfold splitSign
  split
  · rename_i h
    cases h
    cases hc
  · rename_i h
    cases h
    cases hc
  · rfl

theorem ofString?_signed {c : Char} (hc : c.isDigit = true) (cs : List Char) (negative : Bool) :
    Literal.ofString? (signed negative (c :: cs)) = (Scientific.ofChars? (c :: cs)).map (.finite negative) := by
  refine ofString?_of_digit ?_ hc
  unfold signed
  rw [String.toList_ofList]
  cases negative
  · rw [if_neg Bool.false_ne_true]
    exact splitSign_of_digit hc cs
  · rfl

/-! ## 3. The word that is read -/

/-- The words of a format are written with seventeen digits, and none of its numbers is beyond the powers of ten at
which literals are cut off. -/
structure WordFormat.Readable (f : WordFormat) : Prop where
  seventeen : 2 ^ (f.fractionBits + 1) < 10 ^ 16
  small : 2 ^ (1 - f.lowest).toNat ≤ 10 ^ 400
  large : 2 ^ (f.fractionBits + f.lowest + 2 ^ f.exponentBits : Int).toNat ≤ 10 ^ 400

theorem WordFormat.double_readable : WordFormat.double.Readable :=
  ⟨by decide, by decide +kernel, by decide +kernel⟩

theorem WordFormat.single_readable : WordFormat.single.Readable :=
  ⟨by decide, by decide +kernel, by decide +kernel⟩

variable {f : WordFormat} {m : Nat} {e : Int} {v : ℚ}

namespace Scientific

/-- A number lies between the powers of ten that the lengths of its parts give. -/
theorem value_bounds {x : Scientific} (hx : x.coefficient ≠ 0) :
    (10 : ℚ) ^ (x.exponent + (Nat.toDigits 10 x.coefficient).length - 1) ≤ x.value ∧
      x.value < 10 ^ (x.exponent + (Nat.toDigits 10 x.coefficient).length) := by
  have hpow : (0 : ℚ) < 10 ^ x.exponent := zpow_pos (by norm_num) _
  have hlow := pow_digitCount_le (Nat.pos_of_ne_zero hx)
  rw [digitCount, if_neg hx] at hlow
  have hhigh : (x.coefficient : ℚ) < 10 ^ ((Nat.toDigits 10 x.coefficient).length : Int) := by
    rw [zpow_natCast]
    exact_mod_cast lt_pow_length x.coefficient
  constructor
  · rw [add_sub_assoc, zpow_add₀ (by norm_num), mul_comm]
    exact mul_le_mul_of_nonneg_right hlow hpow.le
  · rw [zpow_add₀ (by norm_num), mul_comm ((10 : ℚ) ^ x.exponent)]
    exact mul_lt_mul_of_pos_right hhigh hpow

/-- Also where a literal is cut off its word is the one nearest to its number. -/
theorem word_eq {f : WordFormat} (hf : f.Readable) (x : Scientific) :
    x.word f = f.nearest (scaled 10 x.coefficient x.exponent).1 (scaled 10 x.coefficient x.exponent).2 := by
  have hratio := scaled_eq (show 0 < 10 by decide) x.coefficient x.exponent
  have hden := scaled_pos (show 0 < 10 by decide) x.coefficient x.exponent
  rw [Nat.cast_ofNat] at hratio
  unfold word
  by_cases hx : x.coefficient = 0
  · have hzero : (scaled 10 x.coefficient x.exponent).1 = 0 := by
      unfold scaled
      rw [hx]
      split <;> simp
    rw [hzero, nearest_zero]
    simp [hx]
  obtain ⟨hlow, hhigh⟩ := value_bounds hx
  unfold value at hlow hhigh
  rw [← hratio] at hlow hhigh
  simp only [hx, decide_false, Bool.false_or, decide_eq_true_eq]
  split
  · rename_i hcut
    refine (f.nearest_of_small hden (hhigh.trans_le ?_)).symm
    have hsmall : (2 : ℚ) ^ (1 - f.lowest).toNat ≤ 10 ^ 400 := by exact_mod_cast hf.small
    calc (10 : ℚ) ^ (x.exponent + (Nat.toDigits 10 x.coefficient).length) ≤ 10 ^ (-(400 : Nat) : Int) :=
          zpow_le_zpow_right₀ (by norm_num) (by omega)
      _ = ((10 : ℚ) ^ 400)⁻¹ := by rw [zpow_neg, zpow_natCast]
      _ ≤ (2 ^ (1 - f.lowest).toNat)⁻¹ := inv_anti₀ (by positivity) hsmall
      _ = 2 ^ (-((1 - f.lowest).toNat : Int)) := by rw [zpow_neg, zpow_natCast]
      _ ≤ 2 ^ (f.lowest - 1) := two_zpow_le_iff.mpr (by omega)
  · split
    · rename_i hcut
      refine (f.nearest_of_large hden (le_trans ?_ hlow)).symm
      have hlarge : (2 : ℚ) ^ (f.fractionBits + f.lowest + 2 ^ f.exponentBits : Int).toNat ≤ 10 ^ 400 := by
        exact_mod_cast hf.large
      calc (2 : ℚ) ^ (f.fractionBits + f.lowest + 2 ^ f.exponentBits : Int)
          ≤ 2 ^ (((f.fractionBits + f.lowest + 2 ^ f.exponentBits : Int).toNat : Nat) : Int) :=
            two_zpow_le_iff.mpr (Int.self_le_toNat _)
        _ ≤ 10 ^ ((400 : Nat) : Int) := by rwa [zpow_natCast, zpow_natCast]
        _ ≤ 10 ^ (x.exponent + (Nat.toDigits 10 x.coefficient).length - 1) :=
          zpow_le_zpow_right₀ (by norm_num) (by omega)
    · rfl

/-- A literal whose number goes to a word is read as that word. -/
theorem word_eq_of_roundsTo (hf : f.Readable) (hc : f.Canonical m e) (hm : 0 < m) (hfinite : f.pack m e ≤ f.infinity)
    {x : Scientific} (h : f.RoundsTo m e x.value) : x.word f = f.pack m e := by
  have hratio := scaled_eq (show 0 < 10 by decide) x.coefficient x.exponent
  rw [Nat.cast_ofNat] at hratio
  have hden := scaled_pos (show 0 < 10 by decide) x.coefficient x.exponent
  have hnum : 0 < (scaled 10 x.coefficient x.exponent).1 := by
    refine Nat.pos_of_ne_zero fun hzero => (h.pos hm).ne ?_
    rw [value, ← hratio, hzero, Nat.cast_zero, zero_div]
  rw [word_eq hf]
  refine WordFormat.nearest_eq_of_roundsTo hc hnum hden ?_ hfinite
  rw [hratio]
  exact h

end Scientific

/-! ## 4. Writing and reading -/

/-- A word of the format, with the one word that is used for what is not a number. -/
structure WordFormat.Quiet (f : WordFormat) (word : Nat) : Prop where
  lt : word < 2 * f.signBit
  quiet : f.unpack word = .nan → word = f.infinity + bitValue (f.fractionBits - 1)

theorem ofString?_nan : Literal.ofString? "NaN" = some .nan := by
  decide +kernel

theorem ofString?_inf (negative : Bool) :
    Literal.ofString? (signed negative ['i', 'n', 'f']) = some (.infinite negative) := by
  cases negative <;> decide +kernel

/-- A word that is written without an exponent is read back. -/
theorem word_shortestText {f : WordFormat} (hf : f.Readable) {word : Nat} (hword : f.Quiet word) :
    (Literal.ofString? (shortestText f .plain word)).map (Literal.word f) = some word := by
  unfold shortestText
  cases h : f.unpack word with
  | nan =>
    simp only
    rw [ofString?_nan, Option.map_some, hword.quiet h]
    rfl
  | infinite negative =>
    simp only
    rw [ofString?_inf, Option.map_some, WordFormat.unpack_infinite hword.lt h]
    rfl
  | finite negative m e =>
    obtain ⟨hc, hfinite, hparts⟩ := WordFormat.unpack_finite hword.lt h
    show (Literal.ofString? (signed negative ((shortestDigits f .up m e).positional false))).map _ = _
    by_cases hm : m = 0
    · -- zero has the text of its one digit
      subst hm
      have hlowest : e = f.lowest := hc.normal.resolve_left (Nat.not_le_of_lt (Nat.pow_pos (by decide)))
      rw [shortestDigits, if_pos rfl, hparts, hlowest, WordFormat.pack_lowest]
      show (Literal.ofString? (signed negative ['0'])).map _ = _
      rw [ofString?_signed rfl [] negative, Scientific.ofChars?_whole (by simp) (by simp)]
      rfl
    · have hpos := Nat.pos_of_ne_zero hm
      obtain ⟨hproper, hround⟩ := shortestDigits_roundsTo hf.seventeen hc hpos .up
      obtain ⟨x, hx, hvalue⟩ := Scientific.ofChars?_positional hproper
      obtain ⟨c, cs, hcs, hdigit⟩ := hproper.positional_eq_cons
      rw [← hvalue] at hround
      rw [hcs] at hx ⊢
      rw [ofString?_signed hdigit cs negative, hx, Option.map_some, Option.map_some, hparts]
      show some (f.withSign negative (x.word f)) = _
      rw [Scientific.word_eq_of_roundsTo hf hc hpos hfinite.le hround]

end Scoring.Decimal
