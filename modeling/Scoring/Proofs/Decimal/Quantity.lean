import Scoring.Proofs.Decimal.Integer

/-!
# Quantity — the exact numbers behind words and literals

A word and a literal both stand for a number with a sign in front of it. The word that is found for a number depends on
the number and on nothing else (`nearest_congr`), however it was written, so a literal and a word of the same number
end up as the same double unless the number is zero, which has two.
-/

namespace Scoring.Decimal

/-! ## 1. Quantities -/

/-- A number as it is written or held: infinity, or its magnitude, behind a sign. -/
inductive Quantity where
  | infinite (negative : Bool)
  | finite (negative : Bool) (magnitude : ℚ) (nonneg : 0 ≤ magnitude)

namespace Quantity

def negative : Quantity → Bool
  | infinite negative => negative
  | finite negative _ _ => negative

def IsZero : Quantity → Prop
  | infinite _ => False
  | finite _ magnitude _ => magnitude = 0

/-- One number; a zero is the other zero too. -/
def Same : Quantity → Quantity → Prop
  | infinite s, infinite t => s = t
  | finite s p _, finite t q _ => (if s then -p else p) = (if t then -q else q)
  | _, _ => False

/-- Of one number there are two quantities only if it is zero. -/
theorem Same.negative_eq {p q : Quantity} (h : p.Same q) (hp : ¬ p.IsZero) : p.negative = q.negative := by
  cases p with
  | infinite s =>
    cases q with
    | infinite t => exact h
    | finite => exact h.elim
  | finite s p hp' =>
    cases q with
    | infinite => exact h.elim
    | finite t q hq' =>
      have hpos : 0 < p := lt_of_le_of_ne hp' (Ne.symm hp)
      cases s <;> cases t <;> simp only [Same, Bool.false_eq_true, if_true, if_false] at h <;> first | rfl | linarith

theorem Same.eq_of_negative_eq {p q : Quantity} (h : p.Same q) (hsign : p.negative = q.negative) : p = q := by
  cases p with
  | infinite s =>
    cases q with
    | infinite t => exact congrArg _ h
    | finite => exact h.elim
  | finite s p hp =>
    cases q with
    | infinite => exact h.elim
    | finite t q hq =>
      obtain rfl : s = t := hsign
      have hmagnitude : p = q := by
        cases s <;> simpa [Same] using h
      subst hmagnitude
      rfl

/-- The two quantities of a number that is not told apart by its sign. -/
theorem Same.zeros {p q : Quantity} (h : p.Same q) (hsign : p.negative ≠ q.negative) :
    ∃ s hp hq, p = finite s 0 hp ∧ q = finite (!s) 0 hq := by
  have hzero : p.IsZero := by
    by_contra hp
    exact hsign (h.negative_eq hp)
  cases p with
  | infinite => exact hzero.elim
  | finite s p hp =>
    cases q with
    | infinite => exact h.elim
    | finite t q hq =>
      obtain rfl : p = 0 := hzero
      have hopposite : t = !s := by
        cases s <;> cases t <;> first | rfl | exact absurd rfl hsign
      have hother : q = 0 := by
        cases s <;> cases t <;> simpa [Same, eq_comm] using h
      subst hopposite hother
      exact ⟨s, hp, hq, rfl, rfl⟩

def word (f : WordFormat) : Quantity → Nat
  | infinite negative => f.withSign negative f.infinity
  | finite negative magnitude _ => f.withSign negative (f.nearest magnitude.num.natAbs magnitude.den)

def toFloat (q : Quantity) : Float :=
  Float.ofBits (q.word .double).toUInt64

/-- A quantity written as a fraction has the word of the fraction. -/
theorem word_finite (f : WordFormat) {negative : Bool} {num den : Nat} (hden : 0 < den) {q : ℚ} {hq : 0 ≤ q}
    (h : (num / den : ℚ) = q) : (finite negative q hq).word f = f.withSign negative (f.nearest num den) := by
  have hnum : ((q.num.natAbs : Nat) : ℚ) = q.num := by
    rw [Nat.cast_natAbs, abs_of_nonneg (Rat.num_nonneg.mpr hq)]
  have hparts : ((q.num.natAbs : Nat) / (q.den : Nat) : ℚ) = num / den := by
    rw [hnum, Rat.num_div_den, h]
  rw [word, f.nearest_congr q.den_pos hden hparts]

end Quantity

/-! ## 2. Words -/

def Unpacked.quantity? : Unpacked → Option Quantity
  | .nan => none
  | .infinite negative => some (.infinite negative)
  | .finite negative significand exponent => some (.finite negative (significand * 2 ^ exponent) (by positivity))

/-- The word of what a word stands for is that word. -/
theorem word_of_quantity? {f : WordFormat} {word : Nat} (hword : word < 2 * f.signBit) {q : Quantity}
    (h : (f.unpack word).quantity? = some q) : q.word f = word := by
  cases hu : f.unpack word with
  | nan =>
    rw [hu] at h
    cases h
  | infinite negative =>
    rw [hu] at h
    cases h
    exact (WordFormat.unpack_infinite hword hu).symm
  | finite negative m e =>
    rw [hu] at h
    cases h
    obtain ⟨hc, hfinite, hparts⟩ := WordFormat.unpack_finite hword hu
    have hratio := scaled_eq (show 0 < 2 by decide) m e
    rw [Nat.cast_ofNat] at hratio
    have hden := scaled_pos (show 0 < 2 by decide) m e
    rw [Quantity.word_finite f hden hratio, hparts]
    congr 1
    by_cases hm : m = 0
    · -- zero has the smallest exponent, and its word is zero
      subst hm
      have hlowest : e = f.lowest := hc.normal.resolve_left (Nat.not_le_of_lt (Nat.pow_pos (by decide)))
      have hzero : (scaled 2 0 e).1 = 0 := by
        unfold scaled
        split <;> simp
      rw [hzero, nearest_zero, hlowest, WordFormat.pack_lowest]
    · have hnum : 0 < (scaled 2 m e).1 := by
        have hpos : (0 : ℚ) < m * 2 ^ e := mul_pos (by exact_mod_cast Nat.pos_of_ne_zero hm) (two_zpow_pos e)
        refine Nat.pos_of_ne_zero fun hzero => hpos.ne ?_
        rw [← hratio, hzero, Nat.cast_zero, zero_div]
      refine WordFormat.nearest_eq_of_roundsTo hc hnum hden ?_ hfinite.le
      rw [hratio]
      exact WordFormat.roundsTo_self f m e

/-- A double is the double of the number that it stands for. -/
theorem toFloat_of_quantity? {x : Float} {q : Quantity}
    (h : (WordFormat.double.unpack x.toBits.toNat).quantity? = some q) : q.toFloat = x := by
  have hlt : x.toBits.toNat < 2 * WordFormat.double.signBit := x.toBits.toNat_lt
  rw [Quantity.toFloat, word_of_quantity? hlt h, Nat.toUInt64_eq, UInt64.ofNat_toNat, Float.ofBits_toBits]

/-- A number in single precision is widened to the double of the same number. -/
theorem toFloat_of_quantity?_single {x : Float32} {q : Quantity}
    (h : (WordFormat.single.unpack x.toBits.toNat).quantity? = some q) : q.toFloat = widen x := by
  unfold Quantity.toFloat widen WordFormat.convert
  cases hu : WordFormat.single.unpack x.toBits.toNat with
  | nan =>
    rw [hu] at h
    cases h
  | infinite negative =>
    rw [hu] at h
    cases h
    rfl
  | finite negative m e =>
    rw [hu] at h
    cases h
    have hratio := scaled_eq (show 0 < 2 by decide) m e
    rw [Nat.cast_ofNat] at hratio
    rw [Quantity.word_finite .double (scaled_pos (by decide) m e) hratio]
    rfl

/-- The double of an integer is the double nearest to it. -/
theorem toFloat_of_int {i : Int} (hi : i.natAbs < 2 ^ 64) (hq : (0 : ℚ) ≤ i.natAbs) :
    (Quantity.finite (decide (i < 0)) i.natAbs hq).toFloat = Float.ofInt i := by
  have hratio : (i.natAbs / (1 : Nat) : ℚ) = i.natAbs := by rw [Nat.cast_one, div_one]
  rw [Quantity.toFloat, Quantity.word_finite .double Nat.one_pos hratio, ← toBits_ofInt hi, Nat.toUInt64_eq,
    UInt64.ofNat_toNat, Float.ofBits_toBits]

/-! ## 3. Literals -/

theorem Scientific.value_nonneg (x : Scientific) : 0 ≤ x.value :=
  mul_nonneg (Nat.cast_nonneg _) (zpow_nonneg (by norm_num) _)

def Literal.quantity? : Literal → Option Quantity
  | .nan => none
  | .infinite negative => some (.infinite negative)
  | .finite negative x => some (.finite negative x.value x.value_nonneg)

/-- A literal is read as the double of the number that it writes. -/
theorem toFloat_of_literal {l : Literal} {q : Quantity} (h : l.quantity? = some q) : q.toFloat = l.toFloat := by
  unfold Quantity.toFloat Literal.toFloat
  cases l with
  | nan => cases h
  | infinite negative =>
    cases h
    rfl
  | finite negative x =>
    cases h
    have hratio := scaled_eq (show 0 < 10 by decide) x.coefficient x.exponent
    rw [Nat.cast_ofNat, ← Scientific.value] at hratio
    rw [Quantity.word_finite .double (scaled_pos (by decide) x.coefficient x.exponent) hratio,
      ← Scientific.word_eq WordFormat.double_readable]
    rfl

end Scoring.Decimal
