import Scoring.Proofs.Decimal.Machine

/-!
# Conversion — integers turned into doubles

The machine turns an integer into the double whose word is nearest to it (`toBits_ofInt`): the rounding of its model is
that of `divEven`, and a product with one changes nothing.
-/

namespace Scoring.Decimal

open Float.Model Float.Model.UnpackedFloat

namespace Machine

variable {spec : Format}

/-! ## 1. Rounding -/

/-- A mantissa moved down keeps its last bit and whether any bit before was set. -/
theorem shift_succ (m k : Nat) : (ExtendedMantissa.mk m false false >>> (k + 1)) =
    ⟨m / 2 ^ (k + 1), m / 2 ^ k % 2 != 0, m % 2 ^ k != 0⟩ := by
  induction k with
  | zero =>
    show ExtendedMantissa.shiftRightOne ⟨m, false, false⟩ = _
    simp [ExtendedMantissa.shiftRightOne, Nat.mod_one]
  | succ k ih =>
    show ExtendedMantissa.shiftRightOne (ExtendedMantissa.mk m false false >>> (k + 1)) = _
    rw [ih]
    have hmod : m % 2 ^ (k + 1) = m % 2 ^ k + 2 ^ k * (m / 2 ^ k % 2) := by
      rw [Nat.pow_succ, Nat.mod_mul]
    have hpos : 0 < 2 ^ k := Nat.pow_pos (by decide)
    have hsticky : (m / 2 ^ k % 2 != 0 || m % 2 ^ k != 0) = (m % 2 ^ (k + 1) != 0) := by
      rw [Bool.eq_iff_iff, Bool.or_eq_true, bne_iff_ne, bne_iff_ne, bne_iff_ne, hmod]
      rcases Nat.mod_two_eq_zero_or_one (m / 2 ^ k) with hbit | hbit <;> rw [hbit] <;> omega
    simp only [ExtendedMantissa.shiftRightOne]
    rw [hsticky, Nat.div_div_eq_div_mul, ← Nat.pow_succ]

/-- The mantissa that is left is rounded as the quotient is. -/
theorem roundedMantissa_shift (m k : Nat) :
    (ExtendedMantissa.mk m false false >>> k).roundedMantissa = divEven m (2 ^ k) := by
  cases k with
  | zero =>
    have hexact := divEven_exact m 1 Nat.one_pos
    rw [Nat.mul_one] at hexact
    exact hexact.symm
  | succ k =>
    rw [shift_succ]
    have hpos : 0 < 2 ^ k := Nat.pow_pos (by decide)
    have hlt := Nat.mod_lt m hpos
    have hmod : m % 2 ^ (k + 1) = m % 2 ^ k + 2 ^ k * (m / 2 ^ k % 2) := by
      rw [Nat.pow_succ, Nat.mod_mul]
    have hpow : 2 ^ (k + 1) = 2 * 2 ^ k := Nat.pow_succ'
    unfold divEven ExtendedMantissa.roundedMantissa
    simp only [hmod]
    rcases Nat.mod_two_eq_zero_or_one (m / 2 ^ k) with hbit | hbit
    · rw [hbit, if_pos (by omega)]
      by_cases hrest : m % 2 ^ k = 0
      · rw [hrest]
        rfl
      · rw [show (m % 2 ^ k != 0) = true from bne_iff_ne.mpr hrest]
        rfl
    · rw [hbit, if_neg (by omega)]
      by_cases hrest : m % 2 ^ k = 0
      · rw [hrest, if_neg (by omega)]
        rfl
      · rw [show (m % 2 ^ k != 0) = true from bne_iff_ne.mpr hrest, if_pos (by omega)]
        rfl

theorem minExponent_eq (spec : Format) : spec.minExponent = (WordFormat.ofModel spec).lowest := by
  unfold Format.minExponent Format.mantissaBits WordFormat.lowest WordFormat.ofModel
  simp only [bitValue_eq]
  push_cast
  ring

/-- A number with more bits than the format has, by `k`, is shifted to the right by `k`. -/
theorem shiftToTargetExponent_of_log2 {m : Nat} {e : Int} {k : Nat}
    (hlog : m.log2 = spec.mantissaBitsWithoutImplicit + k) (hlowest : (WordFormat.ofModel spec).lowest ≤ e + k) :
    shiftToTargetExponent spec m e .exact = (ExtendedMantissa.mk m false false >>> k, e + k) := by
  have hmin := minExponent_eq spec
  have htarget : spec.targetExponent (totalExponent m e) = e + k := by
    unfold Format.targetExponent totalExponent Format.mantissaBits
    rw [hlog]
    push_cast
    omega
  unfold shiftToTargetExponent shiftToExponent
  have hsteps : (e + (k : Int) - e).toNat = k := by omega
  simp only [htarget, hsteps]
  rfl

/-- A number with the bits of the format whose exponent is `t` or the next one. -/
structure NumberAt (spec : Format) (t : Int) (M : Nat) (E : Int) : Prop where
  pos : 0 < M
  low : t ≤ E
  high : E ≤ t + 1
  canonical : (WordFormat.ofModel spec).Canonical M E
  finite : (WordFormat.ofModel spec).pack M E < (WordFormat.ofModel spec).infinity

/-- A mantissa that has the bits of the format, or one bit more, which is then a zero. -/
theorem shift_rounded {r : Nat} (hlow : 2 ^ spec.mantissaBitsWithoutImplicit ≤ r)
    (hhigh : r ≤ 2 ^ (spec.mantissaBitsWithoutImplicit + 1)) {t : Int} (ht : (WordFormat.ofModel spec).lowest < t)
    (hroom : (t - (WordFormat.ofModel spec).lowest).toNat + 4 ≤ 2 ^ spec.exponentBits) :
    ∃ (M : Nat) (E : Int), NumberAt spec t M E ∧ (shiftToTargetExponent spec r t .exact).1.mantissa = M ∧
      (shiftToTargetExponent spec r t .exact).2 = E ∧ (WordFormat.ofModel spec).pack M E =
        (t - (WordFormat.ofModel spec).lowest).toNat * 2 ^ spec.mantissaBitsWithoutImplicit + r := by
  have hpos : 0 < 2 ^ spec.mantissaBitsWithoutImplicit := Nat.pow_pos (by decide)
  have hfinite : (t - (WordFormat.ofModel spec).lowest).toNat * 2 ^ spec.mantissaBitsWithoutImplicit + r <
      (WordFormat.ofModel spec).infinity := by
    have hinfinity : (WordFormat.ofModel spec).infinity =
        (2 ^ spec.exponentBits - 1) * 2 ^ spec.mantissaBitsWithoutImplicit := rfl
    have hle := Nat.mul_le_mul_right (2 ^ spec.mantissaBitsWithoutImplicit)
      (show (t - (WordFormat.ofModel spec).lowest).toNat + 3 ≤ 2 ^ spec.exponentBits - 1 by omega)
    rw [Nat.add_mul] at hle
    rw [Nat.pow_succ] at hhigh
    omega
  by_cases hcarry : r = 2 ^ (spec.mantissaBitsWithoutImplicit + 1)
  · have hlog : r.log2 = spec.mantissaBitsWithoutImplicit + 1 := by rw [hcarry, Nat.log2_two_pow]
    have hhalf : r / 2 = 2 ^ spec.mantissaBitsWithoutImplicit := by
      rw [hcarry, Nat.pow_succ, Nat.mul_div_cancel _ (by decide)]
    have hsteps : (t + 1 - (WordFormat.ofModel spec).lowest).toNat =
        (t - (WordFormat.ofModel spec).lowest).toNat + 1 := by
      omega
    have hpack : (WordFormat.ofModel spec).pack (2 ^ spec.mantissaBitsWithoutImplicit) (t + 1) =
        (t - (WordFormat.ofModel spec).lowest).toNat * 2 ^ spec.mantissaBitsWithoutImplicit + r := by
      unfold WordFormat.pack
      rw [hsteps, hcarry, Nat.pow_succ]
      show _ * 2 ^ spec.mantissaBitsWithoutImplicit + _ = _
      rw [Nat.add_mul]
      omega
    have hc : (WordFormat.ofModel spec).Canonical (2 ^ spec.mantissaBitsWithoutImplicit) (t + 1) :=
      ⟨by omega, Nat.pow_lt_pow_right (by decide) (Nat.lt_succ_self _), .inl (le_refl _)⟩
    rw [shiftToTargetExponent_of_log2 hlog (by omega)]
    exact ⟨_, t + 1, ⟨hpos, by omega, le_refl _, hc, hpack ▸ hfinite⟩, hhalf, rfl, hpack⟩
  · have hlog : r.log2 = spec.mantissaBitsWithoutImplicit :=
      (Nat.log2_eq_iff (by omega)).mpr ⟨hlow, by omega⟩
    have hc : (WordFormat.ofModel spec).Canonical r t := ⟨ht.le, lt_of_le_of_ne hhigh hcarry, .inl hlow⟩
    rw [shiftToTargetExponent_of_log2 (k := 0) hlog (by omega)]
    exact ⟨r, t, ⟨hpos.trans_le hlow, le_refl _, by omega, hc, hfinite⟩, rfl, Int.add_zero t, rfl⟩

/-- Rounded to the bits of the format, a number has these bits or one more. -/
theorem divEven_bounds {m p k : Nat} (hm : m ≠ 0) (hlog : m.log2 = p + k) :
    2 ^ p ≤ divEven m (2 ^ k) ∧ divEven m (2 ^ k) ≤ 2 ^ (p + 1) := by
  obtain ⟨hmlow, hmhigh⟩ := (Nat.log2_eq_iff hm).mp hlog
  have hkpos : 0 < 2 ^ k := Nat.pow_pos (by decide)
  constructor
  · refine le_trans ?_ (div_le_divEven m (2 ^ k))
    rw [Nat.le_div_iff_mul_le hkpos, ← Nat.pow_add]
    exact hmlow
  · refine (divEven_le m (2 ^ k)).trans (Nat.succ_le_of_lt ?_)
    rw [Nat.div_lt_iff_lt_mul hkpos, ← Nat.pow_add]
    refine hmhigh.trans_eq (congrArg (2 ^ ·) ?_)
    omega

/-- What is rounded to a number with all the bits of the format is rounded to the number of the nearest word. -/
theorem roundWithAccuracy_eq (spec : Format) {m : Nat} {e : Int} {k : Nat}
    (hlog : m.log2 = spec.mantissaBitsWithoutImplicit + k)
    (hlowest : (WordFormat.ofModel spec).lowest < e + k)
    (hroom : (e + k - (WordFormat.ofModel spec).lowest).toNat + 4 ≤ 2 ^ spec.exponentBits) (s : Sign)
    {num den : Nat} (hnum : 0 < num) (hden : 0 < den) (hv : (num / den : ℚ) = m * 2 ^ e) :
    ∃ (M : Nat) (E : Int) (h : NumberAt spec (e + k) M E),
      roundWithAccuracy spec s m e .exact = .finite s M E h.pos ∧
      (WordFormat.ofModel spec).nearest num den = (WordFormat.ofModel spec).pack M E := by
  have hm : m ≠ 0 := by
    rintro rfl
    have := spec.hm
    rw [Nat.log2_zero] at hlog
    omega
  obtain ⟨hlow, hhigh⟩ := divEven_bounds hm hlog
  have hfirst := shiftToTargetExponent_of_log2 hlog hlowest.le
  obtain ⟨M, E, h, hM, hE, hpack⟩ := shift_rounded hlow hhigh hlowest hroom
  refine ⟨M, E, h, ?_, ?_⟩
  · unfold roundWithAccuracy
    simp only [hfirst, roundedMantissa_shift, hM, hE]
    rw [dif_neg h.pos.ne']
  · rw [WordFormat.nearest_eq_of_log2 (.ofModel spec) hlog (Nat.pos_of_ne_zero hm) hlowest.le hnum hden hv]
    exact (congrArg _ hpack.symm).trans (Nat.min_eq_right h.finite.le)

/-- A number put together and taken apart is the number. -/
theorem NumberAt.unpack_pack {t : Int} {M : Nat} {E : Int} (h : NumberAt spec t M E) (hbits : 1 < spec.exponentBits) :
    UnpackedFloat.unpack spec (UnpackedFloat.pack spec (.finite .positive M E h.pos)) =
      .finite .positive M E h.pos := by
  have hparts := unpack_toNat (UnpackedFloat.pack spec (.finite .positive M E h.pos))
  rw [toNat_pack hbits h.canonical h.finite, WordFormat.unpack_pack h.canonical h.finite] at hparts
  cases hu : UnpackedFloat.unpack spec (UnpackedFloat.pack spec (.finite .positive M E h.pos)) with
  | infinity s =>
    rw [hu] at hparts
    cases hparts
  | notANumber =>
    rw [hu] at hparts
    cases hparts
  | zero s =>
    rw [hu] at hparts
    have hzero : M = 0 := (Unpacked.finite.inj hparts).2.1
    exact absurd hzero h.pos.ne'
  | finite s m' e' hm' =>
    rw [hu] at hparts
    cases s
    · cases hparts
    · cases hparts
      rfl

/-! ## 2. Naturals -/

theorem log2_mul_pow {n : Nat} (hn : n ≠ 0) (j : Nat) : (n * 2 ^ j).log2 = n.log2 + j := by
  have hpos : 0 < 2 ^ j := Nat.pow_pos (by decide)
  refine (Nat.log2_eq_iff (Nat.mul_pos (Nat.pos_of_ne_zero hn) hpos).ne').mpr ⟨?_, ?_⟩
  · rw [Nat.pow_add]
    exact Nat.mul_le_mul_right _ (Nat.log2_self_le hn)
  · rw [Nat.add_right_comm, Nat.pow_add]
    exact Nat.mul_lt_mul_of_pos_right Nat.lt_log2_self hpos

/-- A natural with no more bits than the format has. -/
theorem round_natural {n : Nat} (hn : 0 < n) (hlog : n.log2 ≤ 52) :
    ∃ (M : Nat) (E : Int) (h : NumberAt .binary64 (n.log2 - 52) M E),
      UnpackedFloat.ofNat .binary64 n = .finite .positive M E h.pos ∧
      WordFormat.double.nearest n 1 = WordFormat.double.pack M E := by
  obtain ⟨j, hj⟩ : ∃ j, 52 = n.log2 + j := Nat.exists_eq_add_of_le hlog
  have hlog' : (n * 2 ^ j).log2 = 52 + 0 := by rw [log2_mul_pow hn.ne', hj, Nat.add_zero]
  have hv : ((n : Nat) / (1 : Nat) : ℚ) = (n * 2 ^ j : Nat) * 2 ^ (-(j : Int)) := by
    rw [Nat.cast_one, div_one, Nat.cast_mul, Nat.cast_pow, Nat.cast_ofNat, zpow_neg, zpow_natCast,
      mul_inv_cancel_right₀ (by positivity)]
  have hlowest : (WordFormat.ofModel .binary64).lowest = -1074 := rfl
  obtain ⟨M, E, h, hround, hnearest⟩ := roundWithAccuracy_eq .binary64 hlog' (e := -(j : Int)) (by omega)
    (by rw [hlowest]; simp only; omega) .positive hn Nat.one_pos hv
  have ht : -(j : Int) + (0 : Nat) = n.log2 - 52 := by omega
  rw [ht] at h
  refine ⟨M, E, h, ?_, hnearest⟩
  have hcompare : compare (n : Int) 0 = .gt := Int.compare_eq_gt.mpr (by omega)
  have htarget : Format.binary64.targetExponent (totalExponent n 0) = -j := by
    unfold Format.targetExponent totalExponent
    rw [show (Format.binary64.mantissaBits : Int) = 53 from rfl, show Format.binary64.minExponent = -1074 from rfl]
    omega
  unfold UnpackedFloat.ofNat UnpackedFloat.ofInt UnpackedFloat.normalize
  rw [hcompare]
  simp only
  unfold UnpackedFloat.round decreaseExponent
  rw [Int.toNat_natCast, htarget]
  have hsteps : (0 - -(j : Int)).toNat = j := by omega
  simp only [hsteps, Nat.shiftLeft_eq]
  rw [zero_sub]
  exact hround

/-- The product with one is the number. -/
theorem NumberAt.mul_one {t : Int} {M : Nat} {E : Int} (h : NumberAt .binary64 t M E) (hlow : -1074 < t)
    (hhigh : t < 900) :
    mul .binary64 (.finite .positive M E h.pos) (.finite .positive (2 ^ 52) (-52) (by decide)) =
      .finite .positive M E h.pos := by
  have hlowest : (WordFormat.ofModel .binary64).lowest = -1074 := rfl
  have hEt := h.low
  have hEt' := h.high
  have hnormal : 2 ^ 52 ≤ M := h.canonical.normal.resolve_right (by omega)
  have hlog : (M * 2 ^ 52).log2 = 52 + 52 := by
    rw [log2_mul_pow h.pos.ne', (Nat.log2_eq_iff h.pos.ne').mpr ⟨hnormal, h.canonical.lt⟩]
  have hden := scaled_pos (show 0 < 2 by decide) M E
  have hratio := scaled_eq (show 0 < 2 by decide) M E
  rw [Nat.cast_ofNat] at hratio
  have hnum : 0 < (scaled 2 M E).1 := by
    refine Nat.pos_of_ne_zero fun hzero => ?_
    have hM : (0 : ℚ) < M := by exact_mod_cast h.pos
    rw [hzero, Nat.cast_zero, zero_div] at hratio
    exact (mul_pos hM (two_zpow_pos E)).ne hratio
  have hv : ((scaled 2 M E).1 / (scaled 2 M E).2 : ℚ) = (M * 2 ^ 52 : Nat) * 2 ^ (E - 52) := by
    rw [hratio, Nat.cast_mul, Nat.cast_pow, Nat.cast_ofNat, zpow_sub₀ (by norm_num), zpow_ofNat]
    ring
  obtain ⟨M', E', h', hround, hnearest⟩ := roundWithAccuracy_eq .binary64 hlog (e := E - 52) (by omega)
    (by rw [hlowest]; simp only; omega) .positive hnum hden hv
  have hself := WordFormat.roundsTo_self (.ofModel .binary64) M E
  rw [← hratio] at hself
  rw [WordFormat.nearest_eq_of_roundsTo h.canonical hnum hden hself h.finite.le] at hnearest
  have hparts := WordFormat.unpack_pack h.canonical h.finite false
  rw [hnearest, WordFormat.unpack_pack h'.canonical h'.finite] at hparts
  obtain ⟨-, rfl, rfl⟩ := Unpacked.finite.inj hparts
  exact hround

/-- A natural with as many bits as the format has, or more. -/
theorem ofScientific_natural {n : Nat} (hn : 0 < n) (hlt : n < 2 ^ 64) :
    ∃ (M : Nat) (E : Int) (h : NumberAt .binary64 (n.log2 - 52) M E),
      UnpackedFloat.ofScientific .binary64 n 0 = .finite .positive M E h.pos ∧
      WordFormat.double.nearest n 1 = WordFormat.double.pack M E := by
  have hlog : n.log2 < 64 := (Nat.log2_lt hn.ne').mpr hlt
  have hlowest : (WordFormat.ofModel .binary64).lowest = -1074 := rfl
  have hv : ((n : Nat) / (1 : Nat) : ℚ) = (n * 2 ^ 53 : Nat) * 2 ^ (-53 : Int) := by
    rw [Nat.cast_one, div_one, Nat.cast_mul, Nat.cast_pow, Nat.cast_ofNat, zpow_neg, zpow_ofNat,
      mul_inv_cancel_right₀ (by positivity)]
  have hlog' : (n * 2 ^ 53).log2 = 52 + (n.log2 + 1) := by
    rw [log2_mul_pow hn.ne']
    omega
  obtain ⟨M, E, h, hround, hnearest⟩ := roundWithAccuracy_eq .binary64 hlog' (e := -53) (by omega)
    (by rw [hlowest]; simp only; omega) .positive hn Nat.one_pos hv
  have ht : -53 + ((n.log2 + 1 : Nat) : Int) = n.log2 - 52 := by omega
  rw [ht] at h
  refine ⟨M, E, h, ?_, hnearest⟩
  have hpow : (0 : Int) < 2 ^ Format.binary64.exponentBits := by decide
  unfold UnpackedFloat.ofScientific
  rw [dif_neg hn.ne', if_neg (by decide), if_neg (by omega), if_pos (le_refl 0)]
  show roundWithAccuracy .binary64 .positive (n <<< 53 * 1) (-53 + 0) .exact = _
  rw [Nat.mul_one, Nat.shiftLeft_eq]
  exact hround

/-- A natural is turned into the number of the word nearest to it. -/
theorem natural_eq {n : Nat} (hn : 0 < n) (hlt : n < 2 ^ 64) :
    ∃ (M : Nat) (E : Int) (h : NumberAt .binary64 (n.log2 - 52) M E),
      (Float.ofNat n).toModel = Float.Model.pack (.finite .positive M E h.pos) ∧
      WordFormat.double.nearest n 1 = WordFormat.double.pack M E := by
  have hlog : n.log2 < 64 := (Nat.log2_lt hn.ne').mpr hlt
  show ∃ M E, ∃ h : NumberAt .binary64 (n.log2 - 52) M E, (Float.ofScientific n false 0).toModel = _ ∧ _
  unfold Float.ofScientific
  by_cases hsmall : n < 2 ^ 53
  · rw [dif_pos ⟨hsmall, by decide⟩]
    obtain ⟨M, E, h, hround, hnearest⟩ := round_natural hn (Nat.lt_succ_iff.mp ((Nat.log2_lt hn.ne').mpr hsmall))
    refine ⟨M, E, h, ?_, hnearest⟩
    have hself : n.toUInt64.toNat = n := Nat.mod_eq_of_lt hlt
    have hfactor : n.toUInt64.toFloat.toModel.unpack = .finite .positive M E h.pos := by
      show UnpackedFloat.unpack .binary64
        (UnpackedFloat.pack .binary64 (UnpackedFloat.ofNat .binary64 n.toUInt64.toNat)) = _
      rw [hself, hround]
      exact h.unpack_pack (by decide)
    have hone : (Float.ofBits 0x3FF0000000000000).toModel.unpack = .finite .positive (2 ^ 52) (-52) (by decide) := rfl
    show Float.Model.pack
      (mul .binary64 n.toUInt64.toFloat.toModel.unpack (Float.ofBits 0x3FF0000000000000).toModel.unpack) = _
    rw [hfactor, hone, h.mul_one (by omega) (by omega)]
  · rw [dif_neg (fun h => hsmall h.1)]
    obtain ⟨M, E, h, hproduct, hnearest⟩ := ofScientific_natural hn hlt
    refine ⟨M, E, h, ?_, hnearest⟩
    show Float.Model.pack (UnpackedFloat.ofScientific .binary64 n 0) = _
    rw [hproduct]

/-- A natural with its sign has the word nearest to it. -/
theorem toNat_pack_natural {n : Nat} (hn : 0 < n) (hlt : n < 2 ^ 64) (s : Sign) :
    ∃ (M : Nat) (E : Int) (h : NumberAt .binary64 (n.log2 - 52) M E),
      (Float.ofNat n).toModel = Float.Model.pack (.finite .positive M E h.pos) ∧
      (UnpackedFloat.pack .binary64 (.finite s M E h.pos)).toNat =
        WordFormat.double.withSign (isNegative s) (WordFormat.double.nearest n 1) := by
  obtain ⟨M, E, h, hmodel, hnearest⟩ := natural_eq hn hlt
  refine ⟨M, E, h, hmodel, ?_⟩
  rw [hnearest]
  exact toNat_pack (by decide) h.canonical h.finite s h.pos

end Machine

open Machine

/-! ## 3. Integers -/

/-- The double of an integer has the word nearest to it. -/
theorem toBits_ofInt {i : Int} (hi : i.natAbs < 2 ^ 64) :
    (Float.ofInt i).toBits.toNat =
      WordFormat.double.withSign (decide (i < 0)) (WordFormat.double.nearest i.natAbs 1) := by
  cases i with
  | ofNat n =>
    by_cases hn : n = 0
    · subst hn
      rw [show (Int.ofNat 0).natAbs = 0 from rfl, nearest_zero]
      decide +kernel
    · obtain ⟨M, E, h, hmodel, hword⟩ := toNat_pack_natural (Nat.pos_of_ne_zero hn) hi .positive
      have hsign : decide (Int.ofNat n < 0) = false := decide_eq_false (Int.not_lt.mpr (Int.natCast_nonneg n))
      have hbits : (Float.ofInt (.ofNat n)).toBits.toNat = (Float.ofNat n).toModel.toBits.toNat := rfl
      rw [hsign, hbits, hmodel]
      exact hword
  | negSucc n =>
    obtain ⟨M, E, h, hmodel, hword⟩ := toNat_pack_natural (Nat.succ_pos n) hi .negative
    have hsign : decide (Int.negSucc n < 0) = true := decide_eq_true (Int.negSucc_lt_zero n)
    have hbits : (Float.ofInt (.negSucc n)).toBits.toNat =
        (UnpackedFloat.pack .binary64 (Float.ofNat n.succ).toModel.unpack.neg).toNat := rfl
    have hunpack : (Float.Model.pack (.finite .positive M E h.pos)).unpack = .finite .positive M E h.pos :=
      h.unpack_pack (by decide)
    rw [hsign, hbits, hmodel, hunpack]
    exact hword

end Scoring.Decimal
