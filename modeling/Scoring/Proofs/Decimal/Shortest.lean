import Mathlib.Algebra.Order.Field.Power
import Mathlib.Data.List.TakeWhile
import Mathlib.Data.Nat.Cast.Order.Field
import Mathlib.Tactic.Linarith
import Mathlib.Tactic.Ring
import Scoring.Decimal.Digits
import Scoring.Decimal.Literal
import Scoring.Proofs.Decimal.Rounding

/-!
# Shortest — the fewest digits that still say which number is meant

The digits that are found for a word write a number that goes to that word (`shortestDigits_spec`): the numbers that are
read back as the word are those of an interval, the search takes the first grid of powers of ten with a point in it, and
the grid of seventeen digits always has one.
-/

namespace Scoring.Decimal

/-! ## 1. Naturals in decimal -/

theorem natOfDigits_eq (ds : List Char) : natOfDigits ds = Nat.ofDigitChars 10 ds 0 := rfl

@[simp] theorem natOfDigits_toDigits (n : Nat) : natOfDigits (Nat.toDigits 10 n) = n :=
  Nat.ofDigitChars_ten_toDigits

theorem natOfDigits_append (ds es : List Char) :
    natOfDigits (ds ++ es) = natOfDigits ds * 10 ^ es.length + natOfDigits es := by
  rw [natOfDigits_eq, Nat.ofDigitChars_append, Nat.ofDigitChars_eq_ofDigitChars_zero, Nat.mul_comm]
  rfl

@[simp] theorem natOfDigits_zeros (n : Nat) : natOfDigits (List.replicate n '0') = 0 := by
  rw [natOfDigits_eq, Nat.ofDigitChars_replicate_zero, Nat.mul_zero]

theorem natOfDigits_zeros_append (n : Nat) (ds : List Char) :
    natOfDigits (List.replicate n '0' ++ ds) = natOfDigits ds := by
  rw [natOfDigits_append, natOfDigits_zeros, Nat.zero_mul, Nat.zero_add]

/-- A natural lies below the power of ten with its number of digits. -/
theorem lt_pow_length (n : Nat) : n < 10 ^ (Nat.toDigits 10 n).length :=
  (Nat.length_toDigits_le_iff (by decide) Nat.length_toDigits_pos).mp (Nat.le_refl _)

theorem pow_length_le {n : Nat} (hn : 0 < n) : 10 ^ ((Nat.toDigits 10 n).length - 1) ≤ n := by
  by_cases hone : (Nat.toDigits 10 n).length - 1 = 0
  · rw [hone]
    exact hn
  · by_contra hlt
    have := (Nat.length_toDigits_le_iff (n := n) (show 1 < 10 by decide) (by omega)).mpr (Nat.lt_of_not_le hlt)
    omega

theorem pow_digitCount_le {n : Nat} (hn : 0 < n) : (10 : ℚ) ^ ((digitCount n : Int) - 1) ≤ n := by
  have hcount : (digitCount n : Int) - 1 = ((Nat.toDigits 10 n).length - 1 : Nat) := by
    have := Nat.length_toDigits_pos (b := 10) (n := n)
    rw [digitCount, if_neg hn.ne']
    omega
  rw [hcount, zpow_natCast]
  exact_mod_cast pow_length_le hn

theorem lt_pow_digitCount (n : Nat) : n < 10 ^ digitCount n := by
  unfold digitCount
  split
  · rename_i hn
    simp [hn]
  · exact lt_pow_length n

/-- The decimal logarithm of a number is the largest power of ten that does not exceed it. -/
theorem floorLog10_spec {num den : Nat} (hnum : 0 < num) (hden : 0 < den) :
    (10 : ℚ) ^ floorLog10 num den ≤ num / den ∧ (num / den : ℚ) < 10 ^ (floorLog10 num den + 1) := by
  have hdenPos : (0 : ℚ) < den := by exact_mod_cast hden
  unfold floorLog10
  split
  · rename_i hle
    rw [sub_add_cancel, zpow_natCast]
    have hwhole : ((num / den : Nat) : ℚ) ≤ num / den := Nat.cast_div_le
    refine ⟨(pow_digitCount_le (Nat.div_pos hle hden)).trans hwhole, ?_⟩
    rw [div_lt_iff₀ hdenPos]
    have hlt := (Nat.div_lt_iff_lt_mul hden).mp (lt_pow_digitCount (num / den))
    exact_mod_cast hlt
  · -- the inverse is at most its upper whole part `c`, and more than the number before it
    rename_i hlt
    generalize hc : (den + num - 1) / num = c
    have hmul := Nat.div_add_mod (den + num - 1) num
    have hmod := Nat.mod_lt (den + num - 1) hnum
    rw [hc] at hmul
    obtain ⟨b, rfl⟩ : ∃ b, c = b + 1 := by
      refine Nat.exists_eq_succ_of_ne_zero fun hzero => ?_
      rw [hzero] at hmul
      omega
    rw [Nat.mul_add, Nat.mul_one] at hmul
    rw [Nat.add_sub_cancel]
    have hb : 0 < b := by
      refine Nat.pos_of_ne_zero fun hzero => ?_
      rw [hzero] at hmul
      omega
    constructor
    · have hle : den ≤ num * 10 ^ digitCount b := by
        have := Nat.mul_le_mul_left num (Nat.succ_le_of_lt (lt_pow_digitCount b))
        rw [Nat.succ_eq_add_one, Nat.mul_add] at this
        omega
      have hle' : (den : ℚ) ≤ num * 10 ^ digitCount b := by exact_mod_cast hle
      rw [zpow_neg, zpow_natCast, le_div_iff₀ hdenPos, inv_mul_le_iff₀ (by positivity), mul_comm]
      exact hle'
    · have hlt' : (num : ℚ) * b < den := by exact_mod_cast (show num * b < den by omega)
      have hpow := pow_digitCount_le hb
      rw [div_lt_iff₀ hdenPos, show -(digitCount b : Int) + 1 = -((digitCount b : Int) - 1) by ring, zpow_neg,
        lt_inv_mul_iff₀ (zpow_pos (by norm_num) _), mul_comm]
      exact (mul_le_mul_of_nonneg_left hpow (Nat.cast_nonneg num)).trans_lt hlt'

/-! ## 2. Digits of a coefficient -/

namespace Digits

def value (d : Digits) : ℚ :=
  natOfDigits d.digits * 10 ^ (d.point - d.digits.length)

structure Proper (d : Digits) : Prop where
  nonempty : d.digits ≠ []
  digit : ∀ c ∈ d.digits, c.isDigit

theorem toDigits_eq (coefficient : Nat) (step : Int) :
    Nat.toDigits 10 coefficient = (ofCoefficient coefficient step).digits ++
      List.replicate ((Nat.toDigits 10 coefficient).length - (ofCoefficient coefficient step).digits.length) '0' := by
  generalize hds : Nat.toDigits 10 coefficient = ds
  have hdigits : (ofCoefficient coefficient step).digits = (ds.reverse.dropWhile (· == '0')).reverse := by
    rw [ofCoefficient, hds]
  have hsplit : ds = (ds.reverse.dropWhile (· == '0')).reverse ++ (ds.reverse.takeWhile (· == '0')).reverse := by
    rw [← List.reverse_append, List.takeWhile_append_dropWhile, List.reverse_reverse]
  have hzeros : (ds.reverse.takeWhile (· == '0')).reverse =
      List.replicate (ds.reverse.takeWhile (· == '0')).reverse.length '0' := by
    refine List.eq_replicate_length.mpr fun c hc => ?_
    have := List.mem_takeWhile_imp (List.mem_reverse.mp hc)
    simpa using this
  have hlength : ds.length - (ds.reverse.dropWhile (· == '0')).reverse.length =
      (ds.reverse.takeWhile (· == '0')).reverse.length := by
    have := congrArg List.length hsplit
    rw [List.length_append] at this
    omega
  rw [hdigits, hlength, ← hzeros]
  exact hsplit

theorem length_ofCoefficient_le (coefficient : Nat) (step : Int) :
    (ofCoefficient coefficient step).digits.length ≤ (Nat.toDigits 10 coefficient).length := by
  rw [toDigits_eq coefficient step, List.length_append]
  omega

theorem value_ofCoefficient (coefficient : Nat) (step : Int) :
    (ofCoefficient coefficient step).value = coefficient * 10 ^ step := by
  have hdigits := congrArg natOfDigits (toDigits_eq coefficient step)
  have hle := length_ofCoefficient_le coefficient step
  rw [natOfDigits_toDigits, natOfDigits_append, natOfDigits_zeros, List.length_replicate, Nat.add_zero] at hdigits
  have hpoint : (ofCoefficient coefficient step).point = step + (Nat.toDigits 10 coefficient).length := rfl
  have hexp : (ofCoefficient coefficient step).point - (ofCoefficient coefficient step).digits.length =
      (((Nat.toDigits 10 coefficient).length - (ofCoefficient coefficient step).digits.length : Nat) : Int) + step := by
    omega
  rw [value, hexp, zpow_add₀ (by norm_num), zpow_natCast, ← mul_assoc]
  congr 1
  exact_mod_cast hdigits.symm

theorem proper_ofCoefficient {coefficient : Nat} (hpos : 0 < coefficient) (step : Int) :
    (ofCoefficient coefficient step).Proper := by
  have hsplit := toDigits_eq coefficient step
  refine ⟨fun hnil => ?_, fun c hc => ?_⟩
  · have hzero := congrArg natOfDigits hsplit
    rw [natOfDigits_toDigits, hnil, List.nil_append, natOfDigits_zeros] at hzero
    omega
  · have hmem : c ∈ Nat.toDigits 10 coefficient := by
      rw [hsplit]
      exact List.mem_append_left _ hc
    exact Nat.isDigit_of_mem_toDigits (by decide) (by decide) hmem

end Digits

/-! ## 3. The numbers that are read back as a word -/

namespace Interval

variable {f : WordFormat} {m : Nat} {e : Int}

theorem den_pos (f : WordFormat) (m : Nat) (e : Int) : 0 < (ofFinite f m e).den :=
  scaled_pos (by decide) 1 (e - 2)

/-- A step of the interval is a quarter of a step of the exponent. -/
theorem quarter_eq (f : WordFormat) (m : Nat) (e : Int) (a : Nat) :
    ((a * (scaled 2 1 (e - 2)).1 : Nat) : ℚ) / (ofFinite f m e).den = a / 4 * 2 ^ e := by
  have hstep := scaled_eq (show 0 < 2 by decide) 1 (e - 2)
  have hquarter : (2 : ℚ) ^ (e - 2) = 2 ^ e / 4 := by
    rw [zpow_sub₀ (by norm_num)]
    norm_num
  rw [Nat.cast_one, one_mul, Nat.cast_ofNat, hquarter] at hstep
  rw [Nat.cast_mul, mul_div_assoc, show (ofFinite f m e).den = (scaled 2 1 (e - 2)).2 from rfl, hstep]
  ring

theorem num_eq (f : WordFormat) (m : Nat) (e : Int) :
    ((ofFinite f m e).num : ℚ) / (ofFinite f m e).den = m * 2 ^ e := by
  refine (quarter_eq f m e (4 * m)).trans ?_
  push_cast
  ring

theorem high_eq (f : WordFormat) (m : Nat) (e : Int) :
    ((ofFinite f m e).high : ℚ) / (ofFinite f m e).den = (m + 1 / 2) * 2 ^ e := by
  refine (quarter_eq f m e (4 * m + 2)).trans ?_
  push_cast
  ring

theorem low_eq (f : WordFormat) (hm : 0 < m) (e : Int) :
    ((ofFinite f m e).low : ℚ) / (ofFinite f m e).den = (m - f.reach m e) * 2 ^ e := by
  have hbelow : (ofFinite f m e).low = (4 * m - if m = bitValue f.fractionBits ∧ f.lowest < e then 1 else 2) *
      (scaled 2 1 (e - 2)).1 := rfl
  rw [hbelow, quarter_eq, WordFormat.reach]
  rw [bitValue_eq]
  split
  · rw [Nat.cast_sub (by omega)]
    push_cast
    ring
  · rw [Nat.cast_sub (by omega)]
    push_cast
    ring

/-- The interval has the numbers that go to the word. -/
theorem contains_iff (hm : 0 < m) {a b : Nat} (hb : 0 < b) :
    (ofFinite f m e).contains a b = true ↔ f.RoundsTo m e (a / b) := by
  have hbPos : (0 : ℚ) < b := by exact_mod_cast hb
  have hdenPos : (0 : ℚ) < (ofFinite f m e).den := by exact_mod_cast den_pos f m e
  have hlow := low_eq f hm e
  have hhigh := high_eq f m e
  have hle : (ofFinite f m e).low * b ≤ a * (ofFinite f m e).den ↔ (m - f.reach m e) * 2 ^ e ≤ (a / b : ℚ) := by
    rw [← hlow, div_le_div_iff₀ hdenPos hbPos]
    exact_mod_cast Iff.rfl
  have hle' : a * (ofFinite f m e).den ≤ (ofFinite f m e).high * b ↔ (a / b : ℚ) ≤ (m + 1 / 2) * 2 ^ e := by
    rw [← hhigh, div_le_div_iff₀ hbPos hdenPos]
    exact_mod_cast Iff.rfl
  have hlt : (ofFinite f m e).low * b < a * (ofFinite f m e).den ↔ (m - f.reach m e) * 2 ^ e < (a / b : ℚ) := by
    rw [← hlow, div_lt_div_iff₀ hdenPos hbPos]
    exact_mod_cast Iff.rfl
  have hlt' : a * (ofFinite f m e).den < (ofFinite f m e).high * b ↔ (a / b : ℚ) < (m + 1 / 2) * 2 ^ e := by
    rw [← hhigh, div_lt_div_iff₀ hbPos hdenPos]
    exact_mod_cast Iff.rfl
  have hclosed : (ofFinite f m e).closed = (m % 2 == 0) := rfl
  unfold contains
  rw [hclosed]
  by_cases heven : m % 2 = 0
  · simp only [heven, beq_self_eq_true, if_true, Bool.and_eq_true, decide_eq_true_eq, hle, hle']
    exact ⟨fun h => ⟨h.1, h.2, fun _ => heven⟩, fun h => ⟨h.low, h.high⟩⟩
  · simp only [beq_iff_eq, heven, if_false, Bool.and_eq_true, decide_eq_true_eq, hlt, hlt']
    refine ⟨fun h => ⟨h.1.le, h.2.le, fun h' => ?_⟩, fun h => ⟨?_, ?_⟩⟩
    · exact absurd h' (not_or.mpr ⟨h.1.ne, h.2.ne⟩)
    · exact lt_of_le_of_ne h.low fun h' => heven (h.even (.inl h'))
    · exact lt_of_le_of_ne h.high fun h' => heven (h.even (.inr h'))

/-! ## 4. The search -/

/-- The coefficient of the point of a grid at or below the number of the word. -/
def lower (i : Interval) (step : Int) : Nat :=
  i.num * (scaled 10 1 step).2 / (i.den * (scaled 10 1 step).1)

def hits (i : Interval) (step : Int) (c : Nat) : Bool :=
  i.contains (c * (scaled 10 1 step).1) (scaled 10 1 step).2

/-- A point that a grid gives is one of the interval. -/
theorem hits_of_nearestOnGrid? {i : Interval} {tie : Tie} {step : Int} {c : Nat}
    (h : i.nearestOnGrid? tie step = some c) : i.hits step c = true := by
  unfold nearestOnGrid? at h
  simp only at h
  split at h
  · cases h
  · rename_i hlower hupper
    cases h
    exact hlower
  · rename_i hlower hupper
    cases h
    exact hupper
  · rename_i hlower hupper
    have hc : c = i.lower step ∨ c = i.lower step + 1 := by
      split at h
      · cases h
        exact .inl rfl
      · split at h
        · cases h
          exact .inr rfl
        · cases tie <;> cases h
          · exact .inr rfl
          · have := Nat.mod_two_eq_zero_or_one (i.lower step)
            unfold lower at this ⊢
            omega
    rcases hc with rfl | rfl
    · exact hlower
    · exact hupper

/-- A grid gives a point if one of the neighbours of the number is in the interval. -/
theorem hits_of_nearestOnGrid?_eq_none {i : Interval} {tie : Tie} {step : Int}
    (h : i.nearestOnGrid? tie step = none) :
    i.hits step (i.lower step) = false ∧ i.hits step (i.lower step + 1) = false := by
  unfold nearestOnGrid? at h
  simp only at h
  split at h
  · rename_i hlower hupper
    exact ⟨hlower, hupper⟩
  · cases h
  · cases h
  · split at h
    · cases h
    · split at h
      · cases h
      · cases tie <;> cases h

theorem coarsest?_eq_some {i : Interval} {tie : Tie} {k : Int} {tries count : Nat} {d : Digits}
    (h : i.coarsest? tie k tries count = some d) :
    ∃ (step : Int) (c : Nat), d = Digits.ofCoefficient c step ∧ i.nearestOnGrid? tie step = some c ∧
      ∀ step', step < step' → step' ≤ k + 1 - count → i.nearestOnGrid? tie step' = none := by
  induction tries generalizing count with
  | zero => cases h
  | succ tries ih =>
    unfold coarsest? at h
    simp only at h
    split at h
    · rename_i c hc
      cases h
      exact ⟨_, c, rfl, hc, fun step' _ _ => by omega⟩
    · rename_i hnone
      obtain ⟨step, c, hd, hc, hbefore⟩ := ih h
      refine ⟨step, c, hd, hc, fun step' hlt hle => ?_⟩
      by_cases hfirst : step' = k + 1 - count
      · exact hfirst ▸ hnone
      · exact hbefore step' hlt (by omega)

theorem coarsest?_eq_none {i : Interval} {tie : Tie} {k : Int} {tries count : Nat}
    (h : i.coarsest? tie k tries count = none) {step : Int} (hlow : k + 1 - count - tries < step)
    (hhigh : step ≤ k + 1 - count) : i.nearestOnGrid? tie step = none := by
  induction tries generalizing count with
  | zero => omega
  | succ tries ih =>
    unfold coarsest? at h
    simp only at h
    split at h
    · cases h
    · rename_i hnone
      by_cases hfirst : step = k + 1 - count
      · exact hfirst ▸ hnone
      · exact ih h (by omega) (by omega)

theorem hits_iff {m : Nat} (hm : 0 < m) (step : Int) (c : Nat) :
    (ofFinite f m e).hits step c = true ↔ f.RoundsTo m e (c * 10 ^ step) := by
  have hpoint := scaled_eq (show 0 < 10 by decide) 1 step
  rw [hits, contains_iff hm (scaled_pos (by decide) 1 step), Nat.cast_mul, mul_div_assoc, hpoint, Nat.cast_one, one_mul,
    Nat.cast_ofNat]

/-- The number lies between its neighbours on a grid. -/
theorem lower_le (f : WordFormat) (m : Nat) (e step : Int) :
    ((ofFinite f m e).lower step : ℚ) * 10 ^ step ≤ m * 2 ^ e := by
  have hgrid := grid_eq (show 0 < 10 by decide) (ofFinite f m e).num (ofFinite f m e).den step
  rw [num_eq, Nat.cast_ofNat] at hgrid
  have hfloor : ((ofFinite f m e).lower step : ℚ) ≤ m * 2 ^ e / 10 ^ step := hgrid ▸ Nat.cast_div_le
  exact (le_div_iff₀ (zpow_pos (by norm_num) step)).mp hfloor

theorem lt_upper (f : WordFormat) (m : Nat) (e step : Int) :
    (m : ℚ) * 2 ^ e < (ofFinite f m e).lower step * 10 ^ step + 10 ^ step := by
  have hgrid := grid_eq (show 0 < 10 by decide) (ofFinite f m e).num (ofFinite f m e).den step
  rw [num_eq, Nat.cast_ofNat] at hgrid
  have hpos := Nat.mul_pos (den_pos f m e) (up_pos (show 0 < 10 by decide) step)
  have hfloor : (m : ℚ) * 2 ^ e / 10 ^ step < (ofFinite f m e).lower step + 1 := by
    rw [← hgrid, div_lt_iff₀ (by exact_mod_cast hpos)]
    have hlt := (Nat.div_lt_iff_lt_mul hpos).mp (Nat.lt_succ_self ((ofFinite f m e).lower step))
    exact_mod_cast hlt
  rw [div_lt_iff₀ (zpow_pos (by norm_num) step)] at hfloor
  linarith

/-- If a grid gives no point then none of its points goes to the word. -/
theorem not_roundsTo_of_miss (hm : 0 < m) {tie : Tie} {step : Int}
    (h : (ofFinite f m e).nearestOnGrid? tie step = none) (c : Nat) : ¬ f.RoundsTo m e (c * 10 ^ step) := by
  intro hround
  obtain ⟨hlower, hupper⟩ := hits_of_nearestOnGrid?_eq_none h
  have hle := lower_le f m e step
  have hlt := lt_upper f m e step
  have hpow : (0 : ℚ) ≤ 10 ^ step := (zpow_pos (by norm_num) step).le
  by_cases hc : c ≤ (ofFinite f m e).lower step
  · have hcle := mul_le_mul_of_nonneg_right (show (c : ℚ) ≤ (ofFinite f m e).lower step by exact_mod_cast hc) hpow
    rw [(hits_iff hm step _).mpr (hround.of_le hcle hle)] at hlower
    cases hlower
  · have hge : (ofFinite f m e).lower step + 1 ≤ c := by omega
    have hcge := mul_le_mul_of_nonneg_right (show ((ofFinite f m e).lower step + 1 : ℚ) ≤ c by exact_mod_cast hge) hpow
    rw [(hits_iff hm step _).mpr (hround.of_ge (by push_cast; exact hcge) (by push_cast; linarith))] at hupper
    cases hupper

/-- A grid of fine enough steps has a neighbour in the interval; of half as fine ones below a power of two, where the
interval is narrower. -/
theorem hits_of_fine (hm : 0 < m) {step : Int} (hfine : (10 : ℚ) ^ step < 2 ^ e)
    (hnarrow : m = 2 ^ f.fractionBits → (10 : ℚ) ^ step < 2 ^ e / 2) :
    (ofFinite f m e).hits step ((ofFinite f m e).lower step) = true ∨
      (ofFinite f m e).hits step ((ofFinite f m e).lower step + 1) = true := by
  have hle := lower_le f m e step
  have hlt := lt_upper f m e step
  rw [hits_iff hm, hits_iff hm, Nat.cast_succ, add_mul, one_mul]
  generalize ((ofFinite f m e).lower step : ℚ) * 10 ^ step = x at hle hlt ⊢
  have hreach := WordFormat.reach_pos f m e
  have hpow := two_zpow_pos e
  by_cases hnear : m * 2 ^ e - x < f.reach m e * 2 ^ e
  · left
    have hlow : (m - f.reach m e) * 2 ^ e < x := by linarith
    have hhigh : x < (m + 1 / 2) * 2 ^ e := by linarith
    exact ⟨hlow.le, hhigh.le, fun h => absurd h (not_or.mpr ⟨hlow.ne, hhigh.ne⟩)⟩
  · right
    have hlow : (m - f.reach m e) * 2 ^ e < x + 10 ^ step := by nlinarith
    have hhigh : x + 10 ^ step < (m + 1 / 2) * 2 ^ e := by
      unfold WordFormat.reach at hnear
      split at hnear
      · rename_i h
        linarith [hnarrow h.1]
      · linarith
    exact ⟨hlow.le, hhigh.le, fun h => absurd h (not_or.mpr ⟨hlow.ne, hhigh.ne⟩)⟩

/-- The steps of the grid with seventeen digits are fine enough for a point in the interval. -/
theorem nearestOnGrid?_seventeen (hbits : 2 ^ (f.fractionBits + 1) < 10 ^ 16) (hc : f.Canonical m e) (hm : 0 < m)
    {k : Int} (hlow : (10 : ℚ) ^ k ≤ m * 2 ^ e) (tie : Tie) : (ofFinite f m e).nearestOnGrid? tie (k - 16) ≠ none := by
  intro hnone
  have hmiss := hits_of_nearestOnGrid?_eq_none hnone
  have hsixteen : (10 : ℚ) ^ (k - 16) * 10 ^ 16 ≤ m * 2 ^ e := by
    rw [← zpow_natCast, ← zpow_add₀ (by norm_num)]
    refine le_trans (le_of_eq ?_) hlow
    congr 1
    omega
  have hbits' : (2 : ℚ) ^ (f.fractionBits + 1) < 10 ^ 16 := by exact_mod_cast hbits
  have hpow := two_zpow_pos e
  have hpow' : (0 : ℚ) < 10 ^ (k - 16) := zpow_pos (by norm_num) _
  have hfine : (10 : ℚ) ^ (k - 16) < 2 ^ e := by
    have hmlt : (m : ℚ) < 2 ^ (f.fractionBits + 1) := by exact_mod_cast hc.lt
    nlinarith
  have hnarrow : m = 2 ^ f.fractionBits → (10 : ℚ) ^ (k - 16) < 2 ^ e / 2 := by
    intro hmeq
    have hmeq' : 2 * (m : ℚ) < 10 ^ 16 := by
      rw [hmeq, Nat.cast_pow, Nat.cast_ofNat, mul_comm, ← pow_succ]
      exact hbits'
    nlinarith
  rcases hits_of_fine hm hfine hnarrow with hhit | hhit
  · rw [hmiss.1] at hhit
    cases hhit
  · rw [hmiss.2] at hhit
    cases hhit

end Interval

/-! ## 5. The digits of a word -/

/-- The digits write a number that goes to the word, on a grid of powers of ten, and no number of a coarser grid does,
as far as the number of the word reaches the steps of that grid. -/
theorem shortestDigits_spec {f : WordFormat} (hbits : 2 ^ (f.fractionBits + 1) < 10 ^ 16) {m : Nat} {e : Int}
    (hc : f.Canonical m e) (hm : 0 < m) (tie : Tie) :
    ∃ (step : Int) (c : Nat), shortestDigits f tie m e = Digits.ofCoefficient c step ∧
      f.RoundsTo m e (c * 10 ^ step) ∧
      ∀ (step' : Int) (c' : Nat), step < step' → (10 : ℚ) ^ step' ≤ m * 2 ^ e →
        ¬ f.RoundsTo m e (c' * 10 ^ step') := by
  have hden := Interval.den_pos f m e
  have hnum : 0 < (Interval.ofFinite f m e).num :=
    Nat.mul_pos (Nat.mul_pos (by decide) hm) (up_pos (by decide) (e - 2))
  obtain ⟨hlow, hhigh⟩ := floorLog10_spec hnum hden
  rw [Interval.num_eq] at hlow hhigh
  unfold shortestDigits
  rw [if_neg hm.ne']
  simp only
  generalize floorLog10 (Interval.ofFinite f m e).num (Interval.ofFinite f m e).den = k at hlow hhigh ⊢
  cases hfound : (Interval.ofFinite f m e).coarsest? tie k 17 1 with
  | none =>
    have hnone := Interval.coarsest?_eq_none hfound (show k + 1 - (1 : Nat) - (17 : Nat) < k - 16 by omega) (by omega)
    exact absurd hnone (Interval.nearestOnGrid?_seventeen hbits hc hm hlow tie)
  | some d =>
    obtain ⟨step, c, hd, hgrid, hbefore⟩ := Interval.coarsest?_eq_some hfound
    refine ⟨step, c, hd, (Interval.hits_iff hm step c).mp (Interval.hits_of_nearestOnGrid? hgrid), ?_⟩
    intro step' c' hlt hle
    have hk : step' < k + 1 := (zpow_lt_zpow_iff_right₀ (show (1 : ℚ) < 10 by norm_num)).mp (hle.trans_lt hhigh)
    exact Interval.not_roundsTo_of_miss hm (hbefore step' hlt (by omega)) c'

/-- A word that is not zero is written with a digit or more, and what they write is read back as the word. -/
theorem shortestDigits_roundsTo {f : WordFormat} (hbits : 2 ^ (f.fractionBits + 1) < 10 ^ 16) {m : Nat} {e : Int}
    (hc : f.Canonical m e) (hm : 0 < m) (tie : Tie) :
    (shortestDigits f tie m e).Proper ∧ f.RoundsTo m e (shortestDigits f tie m e).value := by
  obtain ⟨step, c, hd, hround, -⟩ := shortestDigits_spec hbits hc hm tie
  have hcpos : 0 < c := by
    refine Nat.pos_of_ne_zero fun hzero => ?_
    have hlow := hround.low
    rw [hzero, Nat.cast_zero, zero_mul] at hlow
    have hreach := WordFormat.reach_le f m e
    have hone : (1 : ℚ) ≤ m := by exact_mod_cast hm
    have := mul_pos (show 0 < m - f.reach m e by linarith) (two_zpow_pos e)
    linarith
  rw [hd]
  refine ⟨Digits.proper_ofCoefficient hcpos step, ?_⟩
  rw [Digits.value_ofCoefficient]
  exact hround

end Scoring.Decimal
