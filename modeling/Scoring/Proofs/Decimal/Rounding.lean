import Mathlib.Algebra.Order.Field.Power
import Mathlib.Data.Rat.Cast.Order
import Mathlib.Tactic.FieldSimp
import Mathlib.Tactic.Linarith
import Mathlib.Tactic.Ring
import Scoring.Decimal.Binary

/-!
# Rounding — the numbers that go to a word

A finite word stands for all numbers closer to it than to any other word, and for those halfway when its significand is
even: `RoundsTo` says which numbers these are. The word that `nearest` finds for one of them is that word
(`nearest_eq_of_roundsTo`), so no number goes to two words.
-/

namespace Scoring.Decimal

/-! ## 1. Fractions -/

@[simp] theorem bitValue_eq (place : Nat) : bitValue place = 2 ^ place := rfl

theorem scaled_pos {base : Nat} (hbase : 0 < base) (a : Nat) (e : Int) : 0 < (scaled base a e).2 := by
  unfold scaled
  split
  · exact Nat.pow_pos hbase
  · exact Nat.one_pos

/-- The fraction is the number that it stands for. -/
theorem scaled_eq {base : Nat} (hbase : 0 < base) (a : Nat) (e : Int) :
    ((scaled base a e).1 : ℚ) / (scaled base a e).2 = a * (base : ℚ) ^ e := by
  have hne : (base : ℚ) ≠ 0 := by exact_mod_cast hbase.ne'
  unfold scaled
  by_cases he : e < 0
  · rw [if_pos he]
    have hnat : e = -(e.natAbs : Int) := by omega
    show (a : ℚ) / ((base ^ e.natAbs : Nat) : ℚ) = a * (base : ℚ) ^ e
    conv_rhs => rw [hnat]
    rw [zpow_neg, zpow_natCast, Nat.cast_pow, div_eq_mul_inv]
  · rw [if_neg he]
    have hnat : e = (e.toNat : Int) := by omega
    show ((a * base ^ e.toNat : Nat) : ℚ) / ((1 : Nat) : ℚ) = a * (base : ℚ) ^ e
    conv_rhs => rw [hnat]
    rw [zpow_natCast, Nat.cast_mul, Nat.cast_pow, Nat.cast_one, div_one]

/-- A number measured in steps of a power. -/
theorem grid_eq {base : Nat} (hbase : 0 < base) (num den : Nat) (e : Int) :
    ((num * (scaled base 1 e).2 : Nat) : ℚ) / ((den * (scaled base 1 e).1 : Nat) : ℚ) = num / den / (base : ℚ) ^ e := by
  have hdown : ((scaled base 1 e).2 : ℚ) ≠ 0 := by exact_mod_cast (scaled_pos hbase 1 e).ne'
  have hup := scaled_eq hbase 1 e
  rw [div_eq_iff hdown, Nat.cast_one, one_mul] at hup
  rw [Nat.cast_mul, Nat.cast_mul, hup, ← mul_assoc, mul_div_mul_right _ _ hdown, div_div]

theorem up_pos {base : Nat} (hbase : 0 < base) (e : Int) : 0 < (scaled base 1 e).1 := by
  unfold scaled
  split
  · exact Nat.one_pos
  · exact Nat.mul_pos Nat.one_pos (Nat.pow_pos hbase)

/-- A quotient is rounded to the natural within half a unit of it, to the even one of two. -/
theorem divEven_eq {num den q : Nat} (hden : 0 < den) (hlow : 2 * (q * den) ≤ 2 * num + den)
    (hhigh : 2 * num ≤ 2 * (q * den) + den)
    (htie : 2 * (q * den) = 2 * num + den ∨ 2 * num = 2 * (q * den) + den → q % 2 = 0) :
    divEven num den = q := by
  have hmod := Nat.mod_lt num hden
  have hsum : den * (num / den) + num % den = num := Nat.div_add_mod num den
  -- the quotient is the whole part or one more
  have hle : num / den ≤ q := by
    by_contra hlt
    have := Nat.mul_le_mul_right den (show q + 1 ≤ num / den by omega)
    rw [Nat.add_mul, Nat.mul_comm (num / den)] at this
    omega
  have hge : q ≤ num / den + 1 := by
    by_contra hlt
    have := Nat.mul_le_mul_right den (show num / den + 2 ≤ q by omega)
    rw [Nat.add_mul, Nat.mul_comm (num / den)] at this
    omega
  unfold divEven
  obtain hq | hq : q = num / den ∨ q = num / den + 1 := by omega
  · have hprod : q * den = den * (num / den) := by rw [hq, Nat.mul_comm]
    simp only
    split
    · exact hq.symm
    · split
      · omega
      · have := htie (by omega)
        omega
  · have hprod : q * den = den * (num / den) + den := by rw [hq, Nat.add_mul, Nat.mul_comm, Nat.one_mul]
    simp only
    split
    · omega
    · split
      · exact hq.symm
      · have := htie (by omega)
        omega

/-- The same for the quotient as a number. -/
theorem divEven_eq_of_rat {num den q : Nat} (hden : 0 < den) (hlow : (q : ℚ) - 1 / 2 ≤ num / den)
    (hhigh : (num / den : ℚ) ≤ q + 1 / 2)
    (htie : (q : ℚ) - 1 / 2 = num / den ∨ (num / den : ℚ) = q + 1 / 2 → q % 2 = 0) : divEven num den = q := by
  have hpos : (0 : ℚ) < den := by exact_mod_cast hden
  have hlow' : 2 * (q * den) ≤ 2 * num + den := by
    rw [le_div_iff₀ hpos] at hlow
    have : 2 * ((q : ℚ) * den) ≤ 2 * num + den := by linarith
    exact_mod_cast this
  have hhigh' : 2 * num ≤ 2 * (q * den) + den := by
    rw [div_le_iff₀ hpos] at hhigh
    have : 2 * (num : ℚ) ≤ 2 * (q * den) + den := by linarith
    exact_mod_cast this
  refine divEven_eq hden hlow' hhigh' fun h => htie ?_
  rcases h with h | h
  · left
    have h' : 2 * ((q : ℚ) * den) = 2 * num + den := by exact_mod_cast h
    rw [eq_div_iff hpos.ne']
    linarith
  · right
    have h' : 2 * (num : ℚ) = 2 * (q * den) + den := by exact_mod_cast h
    rw [div_eq_iff hpos.ne']
    linarith

theorem div_le_divEven (num den : Nat) : num / den ≤ divEven num den := by
  unfold divEven
  simp only
  split
  · exact Nat.le_refl _
  · split <;> omega

theorem divEven_le (num den : Nat) : divEven num den ≤ num / den + 1 := by
  have hmod := Nat.mod_lt (num / den) (show 0 < 2 by decide)
  unfold divEven
  simp only
  split
  · omega
  · split <;> omega

theorem divEven_mul_right {k : Nat} (hk : 0 < k) (num den : Nat) : divEven (num * k) (den * k) = divEven num den := by
  unfold divEven
  simp only
  rw [Nat.mul_div_mul_right num den hk, Nat.mul_mod_mul_right, ← Nat.mul_assoc]
  simp only [Nat.mul_lt_mul_right hk]

/-- Equal quotients are rounded in the same way. -/
theorem divEven_congr {a b c d : Nat} (hb : 0 < b) (hd : 0 < d) (h : (a / b : ℚ) = c / d) :
    divEven a b = divEven c d := by
  have hb' : (b : ℚ) ≠ 0 := by exact_mod_cast hb.ne'
  have hd' : (d : ℚ) ≠ 0 := by exact_mod_cast hd.ne'
  rw [div_eq_div_iff hb' hd'] at h
  have hcross : a * d = c * b := by exact_mod_cast h
  rw [← divEven_mul_right hd, ← divEven_mul_right hb c d, hcross, Nat.mul_comm b d]

/-! ## 2. Binary logarithms -/

theorem two_zpow_pos (e : Int) : (0 : ℚ) < 2 ^ e :=
  zpow_pos (by norm_num) e

theorem two_zpow_le_iff {d e : Int} : (2 : ℚ) ^ d ≤ 2 ^ e ↔ d ≤ e :=
  zpow_le_zpow_iff_right₀ (by norm_num)

theorem two_zpow_lt_iff {d e : Int} : (2 : ℚ) ^ d < 2 ^ e ↔ d < e :=
  zpow_lt_zpow_iff_right₀ (by norm_num)

theorem pow_log2_le {n : Nat} (hn : 0 < n) : (2 : ℚ) ^ (n.log2 : Int) ≤ n := by
  rw [zpow_natCast]
  exact_mod_cast Nat.log2_self_le hn.ne'

theorem lt_pow_log2 (n : Nat) : (n : ℚ) < 2 ^ ((n.log2 : Int) + 1) := by
  rw [← Nat.cast_succ, zpow_natCast]
  exact_mod_cast Nat.lt_log2_self (n := n)

/-- The lengths of two numbers give the binary logarithm of their quotient up to one. -/
theorem quotient_bounds {num den : Nat} (hnum : 0 < num) (hden : 0 < den) :
    (2 : ℚ) ^ ((num.log2 : Int) - den.log2 - 1) ≤ num / den ∧
      (num / den : ℚ) < 2 ^ ((num.log2 : Int) - den.log2 + 1) := by
  have hpos : (0 : ℚ) < den := by exact_mod_cast hden
  constructor
  · rw [le_div_iff₀ hpos]
    calc (2 : ℚ) ^ ((num.log2 : Int) - den.log2 - 1) * den
        ≤ 2 ^ ((num.log2 : Int) - den.log2 - 1) * 2 ^ ((den.log2 : Int) + 1) :=
          mul_le_mul_of_nonneg_left (lt_pow_log2 den).le (two_zpow_pos _).le
      _ = 2 ^ (num.log2 : Int) := by
        rw [← zpow_add₀ (by norm_num)]
        congr 1
        omega
      _ ≤ num := pow_log2_le hnum
  · rw [div_lt_iff₀ hpos]
    calc (num : ℚ) < 2 ^ ((num.log2 : Int) + 1) := lt_pow_log2 num
      _ = 2 ^ ((num.log2 : Int) - den.log2 + 1) * 2 ^ (den.log2 : Int) := by
        rw [← zpow_add₀ (by norm_num)]
        congr 1
        omega
      _ ≤ 2 ^ ((num.log2 : Int) - den.log2 + 1) * den :=
        mul_le_mul_of_nonneg_left (pow_log2_le hden) (two_zpow_pos _).le

theorem floorLog2_spec {num den : Nat} (hnum : 0 < num) (hden : 0 < den) :
    (2 : ℚ) ^ floorLog2 num den ≤ num / den ∧ (num / den : ℚ) < 2 ^ (floorLog2 num den + 1) := by
  have hpos : (0 : ℚ) < den := by exact_mod_cast hden
  obtain ⟨hlower, hupper⟩ := quotient_bounds hnum hden
  unfold floorLog2
  generalize (num.log2 : Int) - den.log2 = k at hlower hupper ⊢
  have hhi := scaled_eq (show 0 < 2 by decide) 1 k
  have hlo : (0 : ℚ) < (scaled 2 1 k).2 := by exact_mod_cast scaled_pos (show 0 < 2 by decide) 1 k
  rw [div_eq_iff hlo.ne', Nat.cast_one, one_mul] at hhi
  have htest : den * (scaled 2 1 k).1 ≤ num * (scaled 2 1 k).2 ↔ (2 : ℚ) ^ k ≤ num / den := by
    rw [← Nat.cast_le (α := ℚ), Nat.cast_mul, Nat.cast_mul, hhi, le_div_iff₀ hpos, ← mul_assoc,
      mul_le_mul_iff_left₀ hlo, mul_comm]
    rfl
  simp only
  split
  · rename_i h
    exact ⟨htest.mp h, hupper⟩
  · rename_i h
    rw [htest, not_le] at h
    rw [sub_add_cancel]
    exact ⟨hlower, h⟩

theorem floorLog2_eq {num den : Nat} (hnum : 0 < num) (hden : 0 < den) {k : Int} (hlow : (2 : ℚ) ^ k ≤ num / den)
    (hhigh : (num / den : ℚ) < 2 ^ (k + 1)) : floorLog2 num den = k := by
  obtain ⟨hlow', hhigh'⟩ := floorLog2_spec hnum hden
  have h₁ := two_zpow_lt_iff.mp (hlow.trans_lt hhigh')
  have h₂ := two_zpow_lt_iff.mp (hlow'.trans_lt hhigh)
  omega

/-! ## 3. The word nearest to a number -/

theorem nearest_zero (f : WordFormat) (den : Nat) : f.nearest 0 den = 0 := by
  rw [WordFormat.nearest, if_pos rfl]

namespace WordFormat

variable {f : WordFormat} {m : Nat} {e : Int} {v : ℚ}

/-- The number is written with as many bits as the format has, or with its smallest exponent. -/
structure Canonical (f : WordFormat) (m : Nat) (e : Int) : Prop where
  lowest_le : f.lowest ≤ e
  lt : m < 2 ^ (f.fractionBits + 1)
  normal : 2 ^ f.fractionBits ≤ m ∨ e = f.lowest

/-- How far the numbers that go to a word reach below it, in steps of its exponent. The step below a power of two is
half as wide as the one above. -/
def reach (f : WordFormat) (m : Nat) (e : Int) : ℚ :=
  if m = 2 ^ f.fractionBits ∧ f.lowest < e then 1 / 4 else 1 / 2

/-- The numbers that go to the word of `m · 2 ^ e`. -/
structure RoundsTo (f : WordFormat) (m : Nat) (e : Int) (v : ℚ) : Prop where
  low : (m - f.reach m e) * 2 ^ e ≤ v
  high : v ≤ (m + 1 / 2) * 2 ^ e
  even : (m - f.reach m e) * 2 ^ e = v ∨ v = (m + 1 / 2) * 2 ^ e → m % 2 = 0

theorem reach_le (f : WordFormat) (m : Nat) (e : Int) : f.reach m e ≤ 1 / 2 := by
  unfold reach
  split <;> norm_num

theorem reach_pos (f : WordFormat) (m : Nat) (e : Int) : 0 < f.reach m e := by
  unfold reach
  split <;> norm_num

/-- A word stands for its own number. -/
theorem roundsTo_self (f : WordFormat) (m : Nat) (e : Int) : f.RoundsTo m e (m * 2 ^ e) := by
  have hpow := two_zpow_pos e
  have hreach := reach_pos f m e
  have hlow : (m - f.reach m e) * 2 ^ e < m * 2 ^ e := mul_lt_mul_of_pos_right (by linarith) hpow
  have hhigh : (m : ℚ) * 2 ^ e < (m + 1 / 2) * 2 ^ e := mul_lt_mul_of_pos_right (by linarith) hpow
  exact ⟨hlow.le, hhigh.le, fun h => h.elim (fun h => absurd h hlow.ne) fun h => absurd h hhigh.ne⟩

theorem RoundsTo.pos (hm : 0 < m) (h : f.RoundsTo m e v) : 0 < v := by
  have hreach := reach_le f m e
  have hone : (1 : ℚ) ≤ m := by exact_mod_cast hm
  exact (mul_pos (by linarith) (two_zpow_pos e)).trans_le h.low

/-- What lies between a number that goes to a word and the number of the word goes to it too. -/
theorem RoundsTo.of_le {w : ℚ} (h : f.RoundsTo m e v) (hle : v ≤ w) (hle' : w ≤ m * 2 ^ e) : f.RoundsTo m e w := by
  have hself := roundsTo_self f m e
  refine ⟨h.low.trans hle, hle'.trans hself.high, fun heq => ?_⟩
  rcases heq with heq | heq
  · exact h.even (.inl (le_antisymm h.low (hle.trans heq.ge)))
  · exact hself.even (.inr (le_antisymm hself.high (heq.ge.trans hle')))

theorem RoundsTo.of_ge {w : ℚ} (h : f.RoundsTo m e v) (hge : w ≤ v) (hge' : m * 2 ^ e ≤ w) : f.RoundsTo m e w := by
  have hself := roundsTo_self f m e
  refine ⟨hself.low.trans hge', hge.trans h.high, fun heq => ?_⟩
  rcases heq with heq | heq
  · exact hself.even (.inl (le_antisymm hself.low (hge'.trans heq.ge)))
  · exact h.even (.inr (le_antisymm h.high (heq.ge.trans hge)))

def pack (f : WordFormat) (m : Nat) (e : Int) : Nat :=
  (e - f.lowest).toNat * 2 ^ f.fractionBits + m

theorem pack_lowest (f : WordFormat) (m : Nat) : f.pack m f.lowest = m := by
  rw [pack, sub_self, Int.toNat_zero, Nat.zero_mul, Nat.zero_add]

theorem RoundsTo.lt (hc : f.Canonical m e) (h : f.RoundsTo m e v) : v < 2 ^ (f.fractionBits + 1 + e) := by
  have hm : (m : ℚ) + 1 ≤ 2 ^ (f.fractionBits + 1) := by exact_mod_cast hc.lt
  calc v ≤ (m + 1 / 2) * 2 ^ e := h.high
    _ < 2 ^ (f.fractionBits + 1) * 2 ^ e := mul_lt_mul_of_pos_right (by linarith) (two_zpow_pos e)
    _ = 2 ^ (f.fractionBits + 1 + e : Int) := by
      rw [← zpow_natCast, ← zpow_add₀ (by norm_num)]
      norm_cast

/-- Rounded at the exponent of the word, a number that goes to it gives its significand. -/
theorem RoundsTo.divEven_eq (h : f.RoundsTo m e v) {a b : Nat} (hb : 0 < b) (hv : (a / b : ℚ) = v / 2 ^ e) :
    divEven a b = m := by
  have hpow := two_zpow_pos e
  have hreach := reach_le f m e
  have hlow : m - f.reach m e ≤ (a / b : ℚ) := by
    rw [hv, le_div_iff₀ hpow]
    exact h.low
  have hhigh : (a / b : ℚ) ≤ m + 1 / 2 := by
    rw [hv, div_le_iff₀ hpow]
    exact h.high
  refine divEven_eq_of_rat hb (by linarith) hhigh fun htie => h.even ?_
  rcases htie with htie | htie
  · left
    have hwide : f.reach m e = 1 / 2 := by linarith
    rw [← eq_div_iff hpow.ne', ← hv, hwide]
    exact htie
  · right
    rw [← div_eq_iff hpow.ne', ← hv]
    exact htie

/-- Below a power of two the numbers that go to it are rounded at the next lower exponent, and carry. -/
theorem RoundsTo.divEven_carry (h : f.RoundsTo (2 ^ f.fractionBits) e v) (he : f.lowest < e)
    (hv : v < 2 ^ f.fractionBits * 2 ^ e) {a b : Nat} (hb : 0 < b) (hab : (a / b : ℚ) = v / 2 ^ (e - 1)) :
    divEven a b = 2 ^ (f.fractionBits + 1) := by
  have hpow := two_zpow_pos (e - 1)
  have hhalf : (2 : ℚ) ^ e = 2 * 2 ^ (e - 1) := by
    rw [← zpow_one_add₀ (by norm_num)]
    congr 1
    omega
  have hlow := h.low
  rw [reach, if_pos ⟨rfl, he⟩, Nat.cast_pow, Nat.cast_ofNat] at hlow
  have hdouble : ((2 ^ (f.fractionBits + 1) : Nat) : ℚ) = 2 * 2 ^ f.fractionBits := by
    rw [Nat.cast_pow, Nat.cast_ofNat, pow_succ, mul_comm]
  have hlow' : (2 * 2 ^ f.fractionBits - 1 / 2 : ℚ) ≤ a / b := by
    rw [hab, le_div_iff₀ hpow]
    rw [hhalf] at hlow
    linarith
  have hhigh' : (a / b : ℚ) < 2 * 2 ^ f.fractionBits := by
    rw [hab, div_lt_iff₀ hpow]
    rw [hhalf] at hv
    linarith
  refine divEven_eq_of_rat hb (hdouble ▸ hlow') (by linarith) fun _ => ?_
  rw [pow_succ, Nat.mul_mod_left]

/-- A number is rounded at the exponent of the word that it goes to, or below the power of two that it goes to at the
next lower one. -/
theorem RoundsTo.exponent (hc : f.Canonical m e) (h : f.RoundsTo m e v) {k : Int} (hlow : (2 : ℚ) ^ k ≤ v)
    (hhigh : v < 2 ^ (k + 1)) :
    max f.lowest (k - f.fractionBits) = e ∨
      m = 2 ^ f.fractionBits ∧ f.lowest < e ∧ v < 2 ^ f.fractionBits * 2 ^ e ∧
        max f.lowest (k - f.fractionBits) = e - 1 := by
  have hk := two_zpow_lt_iff.mp (hlow.trans_lt (h.lt hc))
  have hlowest := hc.lowest_le
  by_cases heq : max f.lowest (k - f.fractionBits) = e
  · exact .inl heq
  right
  have he : f.lowest < e := by omega
  have hv : v < 2 ^ f.fractionBits * 2 ^ e := by
    rw [← zpow_natCast, ← zpow_add₀ (by norm_num)]
    exact hhigh.trans_le (two_zpow_le_iff.mpr (by omega))
  have hreach := reach_le f m e
  obtain rfl : m = 2 ^ f.fractionBits := by
    have hm := h.low.trans_lt hv
    rw [mul_lt_mul_iff_left₀ (two_zpow_pos e)] at hm
    have hle : (m : ℚ) < 2 ^ f.fractionBits + 1 := by linarith
    have hle' : m < 2 ^ f.fractionBits + 1 := by exact_mod_cast hle
    have hge := hc.normal.resolve_right he.ne'
    omega
  have hhalf : (2 : ℚ) ^ (f.fractionBits - 1 + e : Int) ≤ v := by
    refine le_trans ?_ h.low
    rw [zpow_add₀ (by norm_num), zpow_sub_one₀ (by norm_num), zpow_natCast, Nat.cast_pow, Nat.cast_ofNat]
    have hone : (1 : ℚ) ≤ 2 ^ f.fractionBits := one_le_pow₀ (by norm_num)
    exact mul_le_mul_of_nonneg_right (by linarith) (two_zpow_pos e).le
  have hk' := two_zpow_lt_iff.mp (hhalf.trans_lt hhigh)
  exact ⟨rfl, he, hv, by omega⟩

/-- A number goes to the word that is found for it. -/
theorem nearest_eq_of_roundsTo (hc : f.Canonical m e) {num den : Nat} (hnum : 0 < num) (hden : 0 < den)
    (h : f.RoundsTo m e (num / den)) (hfinite : f.pack m e ≤ f.infinity) : f.nearest num den = f.pack m e := by
  obtain ⟨hlogLow, hlogHigh⟩ := floorLog2_spec hnum hden
  have hexponent := h.exponent hc hlogLow hlogHigh
  unfold nearest
  rw [if_neg hnum.ne']
  simp only
  generalize max f.lowest (floorLog2 num den - f.fractionBits) = E at hexponent ⊢
  have hgrid := grid_eq (show 0 < 2 by decide) num den E
  have hgridPos := Nat.mul_pos hden (up_pos (show 0 < 2 by decide) E)
  rw [Nat.cast_ofNat] at hgrid
  rcases hexponent with rfl | ⟨rfl, he, hv, rfl⟩
  · rw [h.divEven_eq hgridPos hgrid]
    exact Nat.min_eq_right hfinite
  · -- the significand carries on to the exponent of the word
    rw [h.divEven_carry he hv hgridPos hgrid]
    have hcarry : (e - 1 - f.lowest).toNat * 2 ^ f.fractionBits + 2 ^ (f.fractionBits + 1) =
        f.pack (2 ^ f.fractionBits) e := by
      have hsteps : (e - f.lowest).toNat = (e - 1 - f.lowest).toNat + 1 := by omega
      unfold pack
      rw [hsteps, Nat.add_mul, pow_succ]
      omega
    rw [bitValue_eq, hcarry]
    exact Nat.min_eq_right hfinite

/-- A number with more bits than the format has is rounded to these bits. -/
theorem nearest_eq_of_log2 (f : WordFormat) {n k : Nat} (hlog : n.log2 = f.fractionBits + k) (hn : 0 < n)
    (hlowest : f.lowest ≤ e + k) {num den : Nat} (hnum : 0 < num) (hden : 0 < den)
    (hv : (num / den : ℚ) = n * 2 ^ e) :
    f.nearest num den = min f.infinity ((e + k - f.lowest).toNat * 2 ^ f.fractionBits + divEven n (2 ^ k)) := by
  have hpow := two_zpow_pos e
  have hfloor : floorLog2 num den = n.log2 + e := by
    refine floorLog2_eq hnum hden ?_ ?_
    · rw [hv, zpow_add₀ (by norm_num), mul_le_mul_iff_left₀ hpow]
      exact pow_log2_le hn
    · rw [hv, add_right_comm, zpow_add₀ (by norm_num), mul_lt_mul_iff_left₀ hpow]
      exact lt_pow_log2 n
  have hexponent : max f.lowest ((n.log2 : Int) + e - f.fractionBits) = e + k := by
    rw [hlog]
    push_cast
    omega
  have hgrid := grid_eq (show 0 < 2 by decide) num den (e + k)
  have hscaled : (n : ℚ) * 2 ^ e / 2 ^ (e + k) = n / (2 ^ k : Nat) := by
    rw [zpow_add₀ (by norm_num), zpow_natCast, mul_comm ((2 : ℚ) ^ e), mul_div_mul_right _ _ hpow.ne', Nat.cast_pow,
      Nat.cast_ofNat]
  rw [Nat.cast_ofNat, hv, hscaled] at hgrid
  unfold nearest
  rw [if_neg hnum.ne', hfloor]
  simp only [hexponent]
  rw [divEven_congr (Nat.mul_pos hden (up_pos (by decide) _)) (Nat.pow_pos (by decide)) hgrid, bitValue_eq]

/-- Equal numbers go to one word. -/
theorem nearest_congr (f : WordFormat) {num den num' den' : Nat} (hden : 0 < den) (hden' : 0 < den')
    (h : (num / den : ℚ) = num' / den') : f.nearest num den = f.nearest num' den' := by
  have hd : (0 : ℚ) < den := by exact_mod_cast hden
  have hd' : (0 : ℚ) < den' := by exact_mod_cast hden'
  by_cases hzero : num = 0
  · have hzero' : num' = 0 := by
      rw [hzero, Nat.cast_zero, zero_div, eq_comm, div_eq_zero_iff] at h
      exact_mod_cast h.resolve_right hd'.ne'
    rw [hzero, hzero', nearest_zero, nearest_zero]
  · have hzero' : num' ≠ 0 := by
      rintro rfl
      rw [Nat.cast_zero, zero_div, div_eq_zero_iff] at h
      exact hzero (by exact_mod_cast h.resolve_right hd.ne')
    obtain ⟨hlow, hhigh⟩ := floorLog2_spec (Nat.pos_of_ne_zero hzero') hden'
    rw [← h] at hlow hhigh
    have hlog := floorLog2_eq (Nat.pos_of_ne_zero hzero) hden hlow hhigh
    unfold nearest
    rw [if_neg hzero, if_neg hzero', hlog]
    simp only
    generalize max f.lowest (floorLog2 num' den' - f.fractionBits) = e
    have hgrid := grid_eq (show 0 < 2 by decide) num den e
    have hgrid' := grid_eq (show 0 < 2 by decide) num' den' e
    rw [← h, ← hgrid] at hgrid'
    have hup := up_pos (show 0 < 2 by decide) e
    rw [divEven_congr (Nat.mul_pos hden hup) (Nat.mul_pos hden' hup) hgrid'.symm]

/-- What is at most half of the smallest number goes to zero. -/
theorem nearest_of_small (f : WordFormat) {num den : Nat} (hden : 0 < den)
    (h : (num / den : ℚ) < 2 ^ (f.lowest - 1)) : f.nearest num den = 0 := by
  by_cases hzero : num = 0
  · rw [hzero, nearest_zero]
  have hlog := two_zpow_lt_iff.mp ((floorLog2_spec (Nat.pos_of_ne_zero hzero) hden).1.trans_lt h)
  have hexponent : max f.lowest (floorLog2 num den - f.fractionBits) = f.lowest := by omega
  have hgrid := grid_eq (show 0 < 2 by decide) num den f.lowest
  have hpow := two_zpow_pos f.lowest
  have hhalf : (num / den : ℚ) / 2 ^ f.lowest ≤ 0 + 1 / 2 := by
    rw [zpow_sub_one₀ (by norm_num)] at h
    rw [div_le_iff₀ hpow]
    linarith
  have hsignificand : divEven (num * (scaled 2 1 f.lowest).2) (den * (scaled 2 1 f.lowest).1) = 0 := by
    rw [← Nat.cast_ofNat (R := ℚ), ← hgrid] at hhalf
    refine divEven_eq_of_rat (Nat.mul_pos hden (up_pos (by decide) _)) ?_ (by exact_mod_cast hhalf) fun _ => rfl
    rw [Nat.cast_zero, zero_sub]
    exact le_trans (by norm_num) (div_nonneg (Nat.cast_nonneg _) (Nat.cast_nonneg _))
  unfold nearest
  rw [if_neg hzero]
  simp only [hexponent, hsignificand, sub_self, Int.toNat_zero, Nat.zero_mul, Nat.add_zero, Nat.min_zero]

/-- What has an exponent beyond those of the format goes to infinity. -/
theorem nearest_of_large (f : WordFormat) {num den : Nat} (hden : 0 < den)
    (h : (2 : ℚ) ^ (f.fractionBits + f.lowest + 2 ^ f.exponentBits : Int) ≤ num / den) :
    f.nearest num den = f.infinity := by
  have hnum : 0 < num := by
    refine Nat.pos_of_ne_zero fun hzero => ?_
    rw [hzero, Nat.cast_zero, zero_div] at h
    exact absurd (two_zpow_pos _) (not_lt.mpr h)
  have hlog := two_zpow_lt_iff.mp (h.trans_lt (floorLog2_spec hnum hden).2)
  unfold nearest
  rw [if_neg hnum.ne']
  simp only
  refine Nat.min_eq_left ?_
  generalize divEven _ _ = significand
  have hpow : (((2 ^ f.exponentBits : Nat) : Int)) = 2 ^ f.exponentBits := by push_cast; rfl
  have hsteps : 2 ^ f.exponentBits ≤ (max f.lowest (floorLog2 num den - f.fractionBits) - f.lowest).toNat := by
    omega
  calc f.infinity ≤ 2 ^ f.exponentBits * 2 ^ f.fractionBits := Nat.mul_le_mul_right _ (Nat.sub_le _ 1)
    _ ≤ _ := Nat.mul_le_mul_right _ hsteps
    _ ≤ _ := Nat.le_add_right _ _

/-! ## 4. Words taken apart -/

def withSign (f : WordFormat) (negative : Bool) (word : Nat) : Nat :=
  (if negative then f.signBit else 0) + word

/-- A word is its sign bit, its exponent field and its fraction. -/
theorem word_eq (f : WordFormat) {word : Nat} (hword : word < 2 * f.signBit) :
    word = f.withSign (word / f.signBit % 2 == 1) (word / bitValue f.fractionBits % bitValue f.exponentBits *
      2 ^ f.fractionBits + word % bitValue f.fractionBits) := by
  have hpos : 0 < f.signBit := Nat.pow_pos (by decide)
  have hsign : f.signBit = 2 ^ f.fractionBits * 2 ^ f.exponentBits := Nat.pow_add 2 f.fractionBits f.exponentBits
  have hquot : word / f.signBit < 2 := (Nat.div_lt_iff_lt_mul hpos).mpr hword
  have hfields := Nat.div_add_mod (word / 2 ^ f.fractionBits) (2 ^ f.exponentBits)
  have hword' := Nat.div_add_mod word (2 ^ f.fractionBits)
  rw [Nat.div_div_eq_div_mul, ← hsign] at hfields
  rw [← hfields, Nat.mul_add, ← Nat.mul_assoc, ← hsign] at hword'
  unfold withSign
  rw [bitValue_eq, bitValue_eq]
  rw [Nat.mul_comm (word / 2 ^ f.fractionBits % 2 ^ f.exponentBits)]
  obtain hzero | hone := Nat.le_one_iff_eq_zero_or_eq_one.mp (Nat.lt_succ_iff.mp hquot)
  · rw [hzero] at hword' ⊢
    simp only [Nat.zero_mod, Nat.zero_ne_one, beq_iff_eq, if_false]
    omega
  · rw [hone] at hword' ⊢
    simp only [Nat.reduceMod, beq_self_eq_true, if_true]
    omega

theorem unpack_finite {word : Nat} {negative : Bool} (hword : word < 2 * f.signBit)
    (h : f.unpack word = .finite negative m e) :
    f.Canonical m e ∧ f.pack m e < f.infinity ∧ word = f.withSign negative (f.pack m e) := by
  have hparts := word_eq f hword
  have hfraction := Nat.mod_lt word (show 0 < bitValue f.fractionBits from Nat.pow_pos (by decide))
  have hfield := Nat.mod_lt (word / bitValue f.fractionBits)
    (show 0 < bitValue f.exponentBits from Nat.pow_pos (by decide))
  unfold unpack at h
  simp only at h
  generalize word / bitValue f.fractionBits % bitValue f.exponentBits = field at h hparts hfield
  generalize word % bitValue f.fractionBits = fraction at h hparts hfraction
  rw [bitValue_eq] at hfraction hfield
  split at h
  · split at h <;> cases h
  · rename_i hne
    rw [bitValue_eq] at hne
    have hbelow : field * 2 ^ f.fractionBits + fraction < f.infinity := by
      have := Nat.mul_le_mul_right (2 ^ f.fractionBits) (show field + 1 ≤ 2 ^ f.exponentBits - 1 by omega)
      rw [Nat.add_mul, Nat.one_mul] at this
      unfold infinity
      rw [bitValue_eq, bitValue_eq]
      omega
    split at h
    · rename_i hzero
      cases h
      rw [pack_lowest]
      rw [hzero, Nat.zero_mul, Nat.zero_add] at hparts hbelow
      exact ⟨⟨le_refl _, by rw [pow_succ]; omega, .inr rfl⟩, hbelow, hparts⟩
    · rename_i hpos
      cases h
      have hpack : f.pack (bitValue f.fractionBits + fraction) (f.lowest + field - 1) =
          field * 2 ^ f.fractionBits + fraction := by
        have hsteps : (f.lowest + field - 1 - f.lowest).toNat = field - 1 := by omega
        have hone := Nat.mul_le_mul_right (2 ^ f.fractionBits) (show 1 ≤ field by omega)
        rw [pack, hsteps, Nat.sub_mul, bitValue_eq]
        omega
      rw [hpack]
      refine ⟨⟨by omega, ?_, .inl ?_⟩, hbelow, hparts⟩
      · rw [bitValue_eq, pow_succ]
        omega
      · rw [bitValue_eq]
        omega

theorem unpack_parts (f : WordFormat) (negative : Bool) (field fraction : Nat) (hfield : field + 1 < 2 ^ f.exponentBits)
    (hfraction : fraction < 2 ^ f.fractionBits) :
    f.unpack (f.withSign negative (field * 2 ^ f.fractionBits + fraction)) =
      if field = 0 then .finite negative fraction f.lowest
      else .finite negative (2 ^ f.fractionBits + fraction) (f.lowest + field - 1) := by
  have hpos : 0 < 2 ^ f.fractionBits := Nat.pow_pos (by decide)
  have hpos' : 0 < 2 ^ f.exponentBits := Nat.pow_pos (by decide)
  generalize hword : f.withSign negative (field * 2 ^ f.fractionBits + fraction) = word
  have hword' : word = 2 ^ f.fractionBits * (2 ^ f.exponentBits * negative.toNat + field) + fraction := by
    have hsign : f.signBit = 2 ^ f.fractionBits * 2 ^ f.exponentBits := Nat.pow_add 2 f.fractionBits f.exponentBits
    rw [← hword, withSign, hsign, Nat.mul_add, ← Nat.mul_assoc, Nat.mul_comm field, ← Nat.add_assoc]
    cases negative
    · rw [if_neg Bool.false_ne_true]
      rfl
    · rw [if_pos rfl, Bool.toNat_true, Nat.mul_one]
  have hdiv : word / 2 ^ f.fractionBits = 2 ^ f.exponentBits * negative.toNat + field := by
    rw [hword', Nat.mul_add_div hpos, Nat.div_eq_of_lt hfraction, Nat.add_zero]
  have hmod : word % 2 ^ f.fractionBits = fraction := by
    rw [hword', Nat.mul_add_mod, Nat.mod_eq_of_lt hfraction]
  have hbit : word / f.signBit = negative.toNat := by
    rw [signBit, bitValue_eq, Nat.pow_add, ← Nat.div_div_eq_div_mul, hdiv, Nat.mul_add_div hpos',
      Nat.div_eq_of_lt (by omega), Nat.add_zero]
  have hnegative : (negative.toNat % 2 == 1) = negative := by cases negative <;> rfl
  unfold unpack
  simp only [bitValue_eq, hdiv, hmod, hbit, hnegative, Nat.mul_add_mod,
    Nat.mod_eq_of_lt (show field < 2 ^ f.exponentBits by omega)]
  rw [if_neg (by omega)]

/-- A word below infinity has an exponent field below that of infinity. -/
theorem field_lt (hnormal : 2 ^ f.fractionBits ≤ m) (hfinite : f.pack m e < f.infinity) :
    (e - f.lowest).toNat + 1 < 2 ^ f.exponentBits - 1 := by
  refine Nat.lt_of_mul_lt_mul_right (a := 2 ^ f.fractionBits) ?_
  calc ((e - f.lowest).toNat + 1) * 2 ^ f.fractionBits ≤ f.pack m e := by
        rw [pack, Nat.add_mul]
        omega
    _ < (2 ^ f.exponentBits - 1) * 2 ^ f.fractionBits := hfinite

/-- The word of a number is taken apart into the number. -/
theorem unpack_pack (hc : f.Canonical m e) (hfinite : f.pack m e < f.infinity) (negative : Bool) :
    f.unpack (f.withSign negative (f.pack m e)) = .finite negative m e := by
  have hlowest := hc.lowest_le
  have hlt := hc.lt
  have hpos : 0 < 2 ^ f.fractionBits := Nat.pow_pos (by decide)
  have hinfinity : f.infinity = (2 ^ f.exponentBits - 1) * 2 ^ f.fractionBits := rfl
  rw [pow_succ] at hlt
  by_cases hnormal : 2 ^ f.fractionBits ≤ m
  · have hpack : f.pack m e = ((e - f.lowest).toNat + 1) * 2 ^ f.fractionBits + (m - 2 ^ f.fractionBits) := by
      rw [pack, Nat.add_mul]
      omega
    have hfield := field_lt hnormal hfinite
    rw [hpack, unpack_parts f negative _ _ (by omega) (by omega), if_neg (by omega)]
    congr 1
    · omega
    · omega
  · obtain rfl := hc.normal.resolve_left hnormal
    have hfield : 0 < 2 ^ f.exponentBits - 1 := by
      refine Nat.pos_of_ne_zero fun hzero => ?_
      rw [hinfinity, hzero, Nat.zero_mul] at hfinite
      omega
    have hparts := unpack_parts f negative 0 m (by omega) (by omega)
    rw [Nat.zero_mul, Nat.zero_add, if_pos rfl] at hparts
    rw [pack_lowest]
    exact hparts

theorem unpack_infinite {word : Nat} {negative : Bool} (hword : word < 2 * f.signBit)
    (h : f.unpack word = .infinite negative) : word = f.withSign negative f.infinity := by
  have hparts := word_eq f hword
  unfold unpack at h
  simp only at h
  split at h
  · rename_i hfield
    split at h
    · rename_i hfraction
      cases h
      rw [hfraction, Nat.add_zero, show word / bitValue f.fractionBits % bitValue f.exponentBits =
        bitValue f.exponentBits - 1 by omega] at hparts
      exact hparts
    · cases h
  · split at h <;> cases h

end WordFormat

end Scoring.Decimal
