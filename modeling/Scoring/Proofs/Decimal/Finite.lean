import Scoring.Proofs.Decimal.Quantity

/-!
# Finite — where the doubles end

Half a step above the greatest finite double, at `overflow`, numbers begin to be rounded to infinity. So a double that
is read from a text is finite unless the text says `nan` or infinity or writes a number from there on
(`exists_float?_iff`).
-/

namespace Scoring.Decimal

/-! ## 1. Rounding -/

/-- A quotient goes to an even number, or to one above it, from half a step below it on. -/
theorem le_divEven_iff {num den q : Nat} (hden : 0 < den) (heven : q % 2 = 0) :
    q ≤ divEven num den ↔ (q : ℚ) - 1 / 2 ≤ num / den := by
  have hpos : (0 : ℚ) < den := by exact_mod_cast hden
  have hfloor : ((num / den : Nat) : ℚ) ≤ num / den := Nat.cast_div_le
  have hfloor' : (num / den : ℚ) < (num / den : Nat) + 1 := by
    rw [div_lt_iff₀' hpos]
    exact_mod_cast Nat.lt_mul_div_succ num hden
  have hle := div_le_divEven num den
  have hge := divEven_le num den
  generalize hn : num / den = n at hfloor hfloor' hle hge
  rcases lt_trichotomy q (n + 1) with hq | rfl | hq
  · -- whatever is cut off, the quotient does not fall below its whole part
    have hq' : (q : ℚ) ≤ n := by exact_mod_cast Nat.le_of_lt_succ hq
    exact iff_of_true (by omega) (by linarith)
  · -- the number in question is the next one, and half a step decides
    push_cast
    constructor
    · intro h
      by_contra hlow
      have hdown : divEven num den = n := by
        refine divEven_eq_of_rat hden (by linarith) (by linarith) fun htie => ?_
        rcases htie with htie | htie <;> linarith
      omega
    · intro h
      refine (divEven_eq_of_rat hden ?_ ?_ fun _ => heven).ge
      · push_cast
        exact h
      · push_cast
        linarith
  · have hq' : (n : ℚ) + 1 + 1 ≤ q := by exact_mod_cast hq
    exact iff_of_false (by omega) (by linarith)

/-! ## 2. The greatest double -/

/-- The least number that is rounded to infinity, half a step above the greatest finite double. -/
def overflow : ℚ :=
  2 ^ (1024 : Int) - 2 ^ (970 : Int)

theorem overflow_eq : overflow = (2 ^ 53 - 1 / 2) * 2 ^ (971 : Int) := by
  have hhigh : (2 : ℚ) ^ (1024 : Int) = 2 ^ 53 * 2 ^ (971 : Int) := by
    rw [← zpow_natCast, ← zpow_add₀ (by norm_num)]
    rfl
  have hlow : (2 : ℚ) ^ (971 : Int) = 2 ^ (970 : Int) * 2 := zpow_add_one₀ (by norm_num) 970
  rw [overflow, hhigh, hlow]
  generalize (2 : ℚ) ^ (970 : Int) = step
  ring

theorem lt_overflow {v : ℚ} {k : Int} (hv : v < 2 ^ k) (hk : k ≤ 1023) : v < overflow := by
  have hpow := two_zpow_pos 971
  calc v < 2 ^ k := hv
    _ ≤ 2 ^ (1023 : Int) := two_zpow_le_iff.mpr hk
    _ = 2 ^ 52 * 2 ^ (971 : Int) := by rw [← zpow_natCast, ← zpow_add₀ (by norm_num)]; rfl
    _ < (2 ^ 53 - 1 / 2) * 2 ^ (971 : Int) := mul_lt_mul_of_pos_right (by norm_num) hpow
    _ = overflow := overflow_eq.symm

theorem overflow_le {v : ℚ} {k : Int} (hv : 2 ^ k ≤ v) (hk : 1024 ≤ k) : overflow ≤ v := by
  have hpow := two_zpow_pos 971
  calc overflow = (2 ^ 53 - 1 / 2) * 2 ^ (971 : Int) := overflow_eq
    _ ≤ 2 ^ 53 * 2 ^ (971 : Int) := mul_le_mul_of_nonneg_right (by norm_num) hpow.le
    _ = 2 ^ (1024 : Int) := by rw [← zpow_natCast, ← zpow_add₀ (by norm_num)]; rfl
    _ ≤ 2 ^ k := two_zpow_le_iff.mpr hk
    _ ≤ v := hv

namespace WordFormat

theorem infinity_double : double.infinity = 2047 * 2 ^ 52 := by decide

theorem nearest_le_infinity (f : WordFormat) (num den : Nat) : f.nearest num den ≤ f.infinity := by
  unfold nearest
  split
  · exact Nat.zero_le _
  · exact Nat.min_le_left _ _

/-- A number is rounded at the exponent that its logarithm gives, and reaches an even significand from half a step below
it on. -/
theorem exists_nearest_double {num den : Nat} (hnum : num ≠ 0) (hden : 0 < den) :
    ∃ (k e : Int) (significand : Nat), 2 ^ k ≤ (num / den : ℚ) ∧ (num / den : ℚ) < 2 ^ (k + 1) ∧
      e = max (-1074) (k - 52) ∧
      double.nearest num den = min double.infinity ((e + 1074).toNat * 2 ^ 52 + significand) ∧
      ∀ q : Nat, q % 2 = 0 → (q ≤ significand ↔ ((q : ℚ) - 1 / 2) * 2 ^ e ≤ num / den) := by
  obtain ⟨hlow, hhigh⟩ := floorLog2_spec (Nat.pos_of_ne_zero hnum) hden
  generalize he : max (-1074) (floorLog2 num den - 52) = e
  refine ⟨_, e, divEven (num * (scaled 2 1 e).2) (den * (scaled 2 1 e).1), hlow, hhigh, he.symm, ?_, fun q heven => ?_⟩
  · rw [← he]
    exact if_neg hnum
  · have hgrid := grid_eq (show 0 < 2 by decide) num den e
    rw [le_divEven_iff (Nat.mul_pos hden (up_pos (by decide) e)) heven, hgrid, Nat.cast_ofNat,
      le_div_iff₀ (two_zpow_pos e)]

/-- A number below `overflow` keeps below the word of infinity. -/
theorem nearest_lt_infinity_iff {num den : Nat} (hden : 0 < den) :
    double.nearest num den < double.infinity ↔ (num / den : ℚ) < overflow := by
  by_cases hzero : num = 0
  · rw [hzero, nearest_zero, Nat.cast_zero, zero_div]
    exact iff_of_true (by decide) (lt_overflow (two_zpow_pos 0) (by norm_num))
  obtain ⟨k, e, significand, hlow, hhigh, he, hnearest, hround⟩ := exists_nearest_double hzero hden
  rw [hnearest, infinity_double]
  have hpow := two_zpow_pos e
  generalize (num / den : ℚ) = v at hlow hhigh hround ⊢
  rcases lt_trichotomy k 1023 with hk | rfl | hk
  · -- before the last exponent a carry leads to the next one at most
    have hsmall : significand < 2 ^ 53 + 2 := by
      by_contra hge
      have hv := (hround (2 ^ 53 + 2) (by norm_num)).mp (by omega)
      have hbound : v < 2 ^ 53 * 2 ^ e := by
        calc v < 2 ^ (k + 1) := hhigh
          _ ≤ 2 ^ (53 + e) := two_zpow_le_iff.mpr (by omega)
          _ = 2 ^ 53 * 2 ^ e := by rw [zpow_add₀ (by norm_num)]; norm_num
      push_cast at hv
      linarith
    exact iff_of_true (by omega) (lt_overflow hhigh (by omega))
  · -- at the last exponent a carry leads to infinity, and `overflow` is where it begins
    obtain rfl : e = 971 := by omega
    have hlast := hround (2 ^ 53) (by norm_num)
    have hcut : (((2 ^ 53 : Nat) : ℚ) - 1 / 2) * 2 ^ (971 : Int) = overflow := by
      rw [overflow_eq]
      norm_num
    rw [hcut] at hlast
    rw [← not_le (a := overflow), ← hlast]
    omega
  · -- behind it every word is too great
    have hlarge : 2 ^ 52 ≤ significand := by
      refine (hround (2 ^ 52) (by norm_num)).mpr ?_
      have hbound : 2 ^ 52 * 2 ^ e ≤ v := by
        calc (2 : ℚ) ^ 52 * 2 ^ e = 2 ^ (52 + e) := by rw [zpow_add₀ (by norm_num)]; norm_num
          _ ≤ 2 ^ k := two_zpow_le_iff.mpr (by omega)
          _ ≤ v := hlow
      push_cast
      linarith
    exact iff_of_false (by omega) (not_lt.mpr (overflow_le hlow (by omega)))

end WordFormat

/-! ## 3. Finite doubles -/

open Float.Model Float.Model.UnpackedFloat in
/-- A word becomes a finite double when it is taken apart into a number. -/
theorem isFinite_ofBits (word : UInt64) :
    (Float.ofBits word).isFinite = true ↔ ∃ s m e, WordFormat.double.unpack word.toNat = .finite s m e := by
  have hparts : WordFormat.double.unpack word.toNat =
      Machine.ofUnpacked _ (UnpackedFloat.unpack Format.binary64 word.toBitVec) :=
    @Machine.unpack_toNat Format.binary64 word.toBitVec
  have hfinite : (Float.ofBits word).isFinite = (UnpackedFloat.unpack Format.binary64 word.toBitVec).isFinite := by
    show (UnpackedFloat.unpack Format.binary64
      (UnpackedFloat.pack Format.binary64 (UnpackedFloat.unpack Format.binary64 word.toBitVec))).isFinite = _
    rw [pack_unpack]
    -- the machine keeps one word for all that are NaN, and leaves the others as they are
    split
    · rename_i hnan
      simp only [isNaNBits, decide_eq_true_eq] at hnan
      rw [unpack_packedNaN]
      simp [UnpackedFloat.unpack, hnan]
    · rfl
  rw [hfinite, hparts]
  cases UnpackedFloat.unpack Format.binary64 word.toBitVec with
  | infinity s => exact iff_of_false (by decide +revert) (by rintro ⟨_, _, _, h⟩; cases h)
  | notANumber => exact iff_of_false (by decide) (by rintro ⟨_, _, _, h⟩; cases h)
  | zero s => exact iff_of_true rfl ⟨_, _, _, rfl⟩
  | finite s m e hm => exact iff_of_true rfl ⟨_, _, _, rfl⟩

/-- Of the words up to infinity with any sign, those below infinity become finite doubles. -/
theorem isFinite_withSign {negative : Bool} {word : Nat} (h : word ≤ WordFormat.double.infinity) :
    (Float.ofBits (WordFormat.double.withSign negative word).toUInt64).isFinite = true ↔
      word < WordFormat.double.infinity := by
  rcases Nat.lt_or_eq_of_le h with hlt | rfl
  · refine iff_of_true ((isFinite_ofBits _).mpr ?_) hlt
    rw [WordFormat.infinity_double] at hlt
    have hsign : WordFormat.double.signBit = 2 ^ 63 := rfl
    have hroom : WordFormat.double.withSign negative word < 2 ^ 64 := by
      unfold WordFormat.withSign
      rw [hsign]
      split <;> omega
    rw [Nat.toUInt64_eq, UInt64.toNat_ofNat_of_lt' hroom]
    -- below infinity the exponent field is not full
    have hunpack := WordFormat.double.unpack_parts negative (word / 2 ^ 52) (word % 2 ^ 52)
      (show word / 2 ^ 52 + 1 < 2 ^ 11 by omega) (Nat.mod_lt _ (by decide))
    change WordFormat.double.unpack (WordFormat.double.withSign negative (word / 2 ^ 52 * 2 ^ 52 + word % 2 ^ 52)) = _
      at hunpack
    rw [Nat.div_add_mod'] at hunpack
    rw [hunpack]
    split
    · exact ⟨_, _, _, rfl⟩
    · exact ⟨_, _, _, rfl⟩
  · exact iff_of_false (by cases negative <;> decide +kernel) (Nat.lt_irrefl _)

/-- The double of a quantity is finite when the quantity is a number below `overflow`. -/
theorem Quantity.isFinite_toFloat {q : Quantity} :
    q.toFloat.isFinite = true ↔ ∃ negative magnitude nonneg, q = .finite negative magnitude nonneg ∧
      magnitude < overflow := by
  cases q with
  | infinite negative =>
    refine iff_of_false (fun h => ?_) (by rintro ⟨_, _, _, h, -⟩; cases h)
    exact absurd ((isFinite_withSign le_rfl).mp h) (Nat.lt_irrefl _)
  | finite negative magnitude nonneg =>
    have hratio : (magnitude.num.natAbs / magnitude.den : ℚ) = magnitude := by
      rw [Nat.cast_natAbs, abs_of_nonneg (Rat.num_nonneg.mpr nonneg), Rat.num_div_den]
    have hnearest : WordFormat.double.nearest magnitude.num.natAbs magnitude.den < WordFormat.double.infinity ↔
        magnitude < overflow := by
      rw [WordFormat.nearest_lt_infinity_iff magnitude.den_pos, hratio]
    refine (isFinite_withSign (WordFormat.nearest_le_infinity _ _ _)).trans (hnearest.trans ⟨fun h => ?_, ?_⟩)
    · exact ⟨_, _, _, rfl, h⟩
    · rintro ⟨_, _, _, h, hlt⟩
      cases h
      exact hlt

/-- Integers of 64 bits are finite doubles. -/
theorem isFinite_ofInt {i : Int} (hi : i.natAbs < 2 ^ 64) : (Float.ofInt i).isFinite = true := by
  rw [← toFloat_of_int hi (Nat.cast_nonneg _)]
  refine Quantity.isFinite_toFloat.mpr ⟨_, _, _, rfl, lt_overflow (k := 64) ?_ (by norm_num)⟩
  exact_mod_cast hi

/-! ## 4. Literals and texts -/

def Literal.Finite : Literal → Prop
  | .finite _ x => x.value < overflow
  | _ => False

theorem Literal.isFinite_toFloat {l : Literal} : l.toFloat.isFinite = true ↔ l.Finite := by
  cases l with
  | nan => exact iff_of_false (by decide +kernel) id
  | infinite negative =>
    rw [← toFloat_of_literal (l := .infinite negative) rfl, Quantity.isFinite_toFloat]
    exact iff_of_false (by rintro ⟨_, _, _, h, -⟩; cases h) id
  | finite negative x =>
    rw [← toFloat_of_literal (l := .finite negative x) rfl, Quantity.isFinite_toFloat]
    constructor
    · rintro ⟨_, _, _, h, hlt⟩
      cases h
      exact hlt
    · exact fun h => ⟨_, _, _, rfl, h⟩

/-- Behind its sign the text is a word for something that is not a finite number, in letters of either case, or a
number from `overflow` on. -/
def WritesNoFinite (s : String) : Prop :=
  let cs := (splitSign s.toList).2
  cs.map Char.toLower ∈ ["nan".toList, "inf".toList, "infinity".toList] ∨
    ∃ x, Scientific.ofChars? cs = some x ∧ overflow ≤ x.value

/-- These are the texts that are read as a double that is not finite. -/
theorem exists_float?_iff (s : String) :
    (∃ x, float? s = some x ∧ x.isFinite = false) ↔ WritesNoFinite s := by
  have hread : (∃ x, float? s = some x ∧ x.isFinite = false) ↔ ∃ l, Literal.ofString? s = some l ∧ ¬ l.Finite := by
    simp only [float?, Option.map_eq_some_iff, ← Literal.isFinite_toFloat, Bool.not_eq_true]
    constructor
    · rintro ⟨_, ⟨l, hl, rfl⟩, hx⟩
      exact ⟨l, hl, hx⟩
    · rintro ⟨l, hl, hx⟩
      exact ⟨_, ⟨l, hl, rfl⟩, hx⟩
  rw [hread]
  unfold Literal.ofString? WritesNoFinite
  simp only
  -- the sign plays no part in what follows it
  generalize (splitSign s.toList).2 = cs
  have hnan : "nan".toList = ['n', 'a', 'n'] := rfl
  have hinf : "inf".toList = ['i', 'n', 'f'] := rfl
  have hinfinity : "infinity".toList = ['i', 'n', 'f', 'i', 'n', 'i', 't', 'y'] := rfl
  rw [hnan, hinf, hinfinity]
  split
  · rename_i hword
    exact iff_of_true ⟨_, rfl, id⟩ (.inl (by simp [hword]))
  · rename_i hword
    split
    · rename_i hword'
      rw [Bool.or_eq_true, decide_eq_true_eq, decide_eq_true_eq] at hword'
      exact iff_of_true ⟨_, rfl, id⟩ (.inl (by simpa using .inr hword'))
    · rename_i hword'
      rw [Bool.or_eq_true, decide_eq_true_eq, decide_eq_true_eq] at hword'
      simp only [Option.map_eq_some_iff]
      constructor
      · rintro ⟨l, ⟨x, hx, rfl⟩, hfinite⟩
        exact .inr ⟨x, hx, not_lt.mp hfinite⟩
      · rintro (h | ⟨x, hx, hlarge⟩)
        · simp only [List.mem_cons, List.not_mem_nil, or_false] at h
          exact absurd h (by tauto)
        · exact ⟨_, ⟨x, hx, rfl⟩, not_lt.mpr hlarge⟩

end Scoring.Decimal
