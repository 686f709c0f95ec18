import Scoring.Proofs.Decimal.Conversion

/-!
# Integer — integers written and read as doubles

Up to `2 ^ 53` the double of an integer is the integer, and its text is the digits of the integer (`plainText_ofInt`). A
text that is read as an integer is read as the double of that integer, but for zero with a minus (`float?_of_int64?`).
-/

namespace Scoring.Decimal

/-! ## 1. Digits of a whole number -/

theorem toDigits_mul_pow {c : Nat} (hc : 0 < c) (n : Nat) :
    Nat.toDigits 10 (c * 10 ^ n) = Nat.toDigits 10 c ++ List.replicate n '0' := by
  induction n with
  | zero => simp
  | succ n ih =>
    have hpos : 0 < c * 10 ^ n := Nat.mul_pos hc (Nat.pow_pos (by decide))
    have happend := Nat.toDigits_append_toDigits (b := 10) (d := 0) (by decide) hpos (by decide)
    rw [Nat.toDigits_zero, ih] at happend
    rw [List.replicate_succ', ← List.append_assoc, happend, Nat.pow_succ]
    congr 1
    ring

/-- Digits on a grid of whole steps are written as the natural that they stand for. -/
theorem Digits.positional_ofCoefficient {c : Nat} (hc : 0 < c) (n : Nat) :
    (ofCoefficient c n).positional false = Nat.toDigits 10 (c * 10 ^ n) := by
  have hpoint : (ofCoefficient c n).point = n + (Nat.toDigits 10 c).length := rfl
  have hle := length_ofCoefficient_le c n
  have hlength := Nat.length_toDigits_pos (b := 10) (n := c)
  unfold positional
  simp only
  have hzeros : (ofCoefficient c n).point.toNat - (ofCoefficient c n).digits.length =
      (Nat.toDigits 10 c).length - (ofCoefficient c n).digits.length + n := by
    omega
  rw [if_neg (by omega), if_pos (by omega), if_neg Bool.false_ne_true, List.append_nil, hzeros,
    ← List.replicate_append_replicate, ← List.append_assoc, ← toDigits_eq c n, toDigits_mul_pow hc]

/-! ## 2. Texts -/

theorem toString_int_eq (i : Int) : toString i = signed (decide (i < 0)) (Nat.toDigits 10 i.natAbs) := by
  rw [Int.toString_eq_repr, Int.repr_eq_if]
  by_cases hi : 0 ≤ i
  · rw [if_pos hi, Nat.repr_eq_ofList_toDigits, show i.toNat = i.natAbs by omega, decide_eq_false (by omega)]
    rfl
  · rw [if_neg hi, Nat.repr_eq_ofList_toDigits, show (-i).toNat = i.natAbs by omega, decide_eq_true (by omega)]
    apply String.ext
    simp [signed]

/-- A natural below the first that has no double of its own is written with its own digits. -/
theorem positional_natural {n : Nat} (hn : 0 < n) (hlt : n < 2 ^ 53) (m : Nat) (e : Int) (tie : Tie)
    (hc : WordFormat.double.Canonical m e) (he : e ≤ 0) (hm : 0 < m) (hv : (m : ℚ) * 2 ^ e = n) :
    (shortestDigits .double tie m e).positional false = Nat.toDigits 10 n := by
  obtain ⟨step, c, hd, hround, hcoarse⟩ := shortestDigits_spec WordFormat.double_readable.seventeen hc hm tie
  have hstep : 0 ≤ step := by
    by_contra hneg
    refine hcoarse 0 n (by omega) ?_ ?_
    · rw [zpow_zero, hv]
      exact_mod_cast hn
    · rw [zpow_zero, mul_one, ← hv]
      exact WordFormat.roundsTo_self _ m e
  obtain ⟨k, rfl⟩ := Int.eq_ofNat_of_zero_le hstep
  have heq : c * 10 ^ k = n := by
    -- a step of the exponent is at most one, so the number is closer to the natural than any other natural is
    have hone : (2 : ℚ) ^ e ≤ 1 := by
      have := two_zpow_le_iff.mpr he
      rwa [zpow_zero] at this
    have hpow := two_zpow_pos e
    have hreach := WordFormat.reach_le .double m e
    have hlow := hround.low
    have hhigh := hround.high
    rw [zpow_natCast, sub_mul, hv] at hlow
    rw [zpow_natCast, add_mul, hv] at hhigh
    have hlt' : (c * 10 ^ k : ℚ) < n + 1 := by linarith
    have hgt' : (n : ℚ) < c * 10 ^ k + 1 := by nlinarith
    have hltNat : c * 10 ^ k < n + 1 := by exact_mod_cast hlt'
    have hgtNat : n < c * 10 ^ k + 1 := by exact_mod_cast hgt'
    omega
  have hcpos : 0 < c := by
    refine Nat.pos_of_ne_zero fun hzero => ?_
    rw [hzero, Nat.zero_mul] at heq
    omega
  rw [hd, Digits.positional_ofCoefficient hcpos, heq]

/-- The word of a natural with no more bits than the format has. -/
theorem exists_natural_word {n : Nat} (hn : 0 < n) (hlt : n < 2 ^ 53) :
    ∃ (m : Nat) (e : Int), WordFormat.double.Canonical m e ∧ WordFormat.double.pack m e < WordFormat.double.infinity ∧
      0 < m ∧ e ≤ 0 ∧ (m : ℚ) * 2 ^ e = n ∧ WordFormat.double.nearest n 1 = WordFormat.double.pack m e := by
  have hlog : n.log2 < 53 := (Nat.log2_lt hn.ne').mpr hlt
  obtain ⟨j, hj⟩ : ∃ j, 52 = n.log2 + j := Nat.exists_eq_add_of_le (by omega)
  have hbits := (Nat.log2_eq_iff (Nat.mul_pos hn (Nat.pow_pos (by decide))).ne').mp (Machine.log2_mul_pow hn.ne' j)
  rw [← hj] at hbits
  have hlowest : WordFormat.double.lowest = -1074 := rfl
  have hc : WordFormat.double.Canonical (n * 2 ^ j) (-j) := ⟨by omega, hbits.2, .inl hbits.1⟩
  have hfinite : WordFormat.double.pack (n * 2 ^ j) (-j) < WordFormat.double.infinity := by
    have hsteps : (-(j : Int) - WordFormat.double.lowest).toNat ≤ 1074 := by omega
    have hle := Nat.mul_le_mul_right (2 ^ 52) hsteps
    have hinfinity : WordFormat.double.infinity = 2047 * 2 ^ 52 := rfl
    show (-(j : Int) - WordFormat.double.lowest).toNat * 2 ^ 52 + n * 2 ^ j < _
    omega
  have hv : ((n * 2 ^ j : Nat) : ℚ) * 2 ^ (-(j : Int)) = n := by
    rw [Nat.cast_mul, Nat.cast_pow, Nat.cast_ofNat, zpow_neg, zpow_natCast, mul_inv_cancel_right₀ (by positivity)]
  refine ⟨n * 2 ^ j, -j, hc, hfinite, Nat.mul_pos hn (Nat.pow_pos (by decide)), by omega, hv, ?_⟩
  have hself := WordFormat.roundsTo_self .double (n * 2 ^ j) (-j)
  rw [hv] at hself
  refine WordFormat.nearest_eq_of_roundsTo hc hn Nat.one_pos ?_ hfinite.le
  rw [Nat.cast_one, div_one]
  exact hself

/-- The double of an integer that is no zero and has no more bits than the format has. -/
theorem unpack_ofInt {i : Int} (hne : i ≠ 0) (hi : i.natAbs < 2 ^ 53) :
    ∃ (m : Nat) (e : Int), WordFormat.double.unpack (Float.ofInt i).toBits.toNat = .finite (decide (i < 0)) m e ∧
      WordFormat.double.Canonical m e ∧ 0 < m ∧ e ≤ 0 ∧ (m : ℚ) * 2 ^ e = i.natAbs := by
  obtain ⟨m, e, hc, hfinite, hm, he, hv, hword⟩ := exists_natural_word (Int.natAbs_pos.mpr hne) hi
  refine ⟨m, e, ?_, hc, hm, he, hv⟩
  rw [toBits_ofInt (by omega), hword, WordFormat.unpack_pack hc hfinite]

/-- The text of the double of an integer of at most 53 bits is the text of the integer, and so is that of the one
after it. -/
theorem plainText_ofInt {i : Int} (hi : i.natAbs ≤ 2 ^ 53) : plainText (Float.ofInt i) = toString i := by
  by_cases hzero : i = 0
  · subst hzero
    decide +kernel
  by_cases hmax : i.natAbs = 2 ^ 53
  · obtain rfl | rfl : i = 9007199254740992 ∨ i = -9007199254740992 := by omega
    · decide +kernel
    · decide +kernel
  obtain ⟨m, e, hunpack, hc, hm, he, hv⟩ := unpack_ofInt hzero (by omega)
  rw [plainText, shortestText, hunpack, toString_int_eq]
  show signed _ ((shortestDigits .double .up m e).positional false) = _
  rw [positional_natural (Int.natAbs_pos.mpr hzero) (by omega) m e .up hc he hm hv]

/-! ## 3. Doubles that are shared -/

theorem nearest_pos {n : Nat} (hn : 0 < n) (hlt : n < 2 ^ 64) : 0 < WordFormat.double.nearest n 1 := by
  obtain ⟨M, E, h, -, hnearest⟩ := Machine.natural_eq hn hlt
  rw [hnearest]
  exact h.pos.trans_le (Nat.le_add_left _ _)

theorem ofInt_ne_ofInt_zero {i : Int} (hne : i ≠ 0) (hi : i.natAbs < 2 ^ 64) : Float.ofInt i ≠ Float.ofInt 0 := by
  intro h
  have hword := toBits_ofInt hi
  have hpos := nearest_pos (Int.natAbs_pos.mpr hne) hi
  rw [h, toBits_ofInt (by decide), Int.natAbs_zero, nearest_zero] at hword
  simp only [WordFormat.withSign, lt_irrefl, decide_false, Bool.false_eq_true, if_false] at hword
  omega

/-- The exponent of the double of an integer bounds the integer. -/
theorem log2_le_of_unpack_ofInt {i : Int} (hne : i ≠ 0) (hi : i.natAbs < 2 ^ 64) {negative : Bool} {m : Nat} {e : Int}
    (h : WordFormat.double.unpack (Float.ofInt i).toBits.toNat = .finite negative m e) :
    (i.natAbs.log2 : Int) - 52 ≤ e := by
  obtain ⟨M, E, hM, -, hword⟩ := Machine.natural_eq (Int.natAbs_pos.mpr hne) hi
  have hparts : WordFormat.double.unpack
      (WordFormat.double.withSign (decide (i < 0)) (WordFormat.double.pack M E)) = .finite (decide (i < 0)) M E :=
    WordFormat.unpack_pack hM.canonical hM.finite _
  rw [toBits_ofInt hi, hword, hparts] at h
  obtain ⟨-, -, rfl⟩ := Unpacked.finite.inj h
  exact hM.low

/-- An integer below the first that has no double of its own shares its double with no other 64-bit integer. -/
theorem ofInt_inj_of_lt {i j : Int} (hi : i.natAbs < 2 ^ 53) (hj : j.natAbs < 2 ^ 64)
    (h : Float.ofInt i = Float.ofInt j) : i = j := by
  by_cases hizero : i = 0
  · subst hizero
    by_contra hne
    exact ofInt_ne_ofInt_zero (Ne.symm hne) hj h.symm
  have hjzero : j ≠ 0 := by
    rintro rfl
    exact ofInt_ne_ofInt_zero hizero (by omega) h
  obtain ⟨m, e, hunpack, -, -, he, hv⟩ := unpack_ofInt hizero hi
  rw [h] at hunpack
  -- the exponent bounds the other integer too
  have hlog := log2_le_of_unpack_ofInt hjzero hj hunpack
  have hsmall : j.natAbs < 2 ^ 53 := (Nat.log2_lt (by omega)).mp (by omega)
  obtain ⟨m', e', hunpack', -, -, -, hv'⟩ := unpack_ofInt hjzero hsmall
  rw [hunpack] at hunpack'
  obtain ⟨hsign, rfl, rfl⟩ := Unpacked.finite.inj hunpack'
  have habs : (i.natAbs : ℚ) = j.natAbs := hv.symm.trans hv'
  have habs' : i.natAbs = j.natAbs := by exact_mod_cast habs
  rw [decide_eq_decide] at hsign
  omega

/-! ## 4. Literals -/

/-- Digits with a sign are read as a number with no places behind the point. -/
theorem ofString?_of_signedDigits? {s : String} {i : Int} (h : signedDigits? s.toList = some i) :
    ∃ (negative : Bool) (n : Nat), Literal.ofString? s = some (.finite negative ⟨n, 0⟩) ∧
      i = if negative then -(n : Int) else n := by
  unfold signedDigits? at h
  generalize hsplit : splitSign s.toList = parts at h
  obtain ⟨negative, ds⟩ := parts
  simp only at h
  split at h
  · cases h
  · rename_i hdigits
    rw [Bool.or_eq_true, not_or, List.isEmpty_iff, Bool.not_eq_true', Bool.not_eq_false, List.all_eq_true] at hdigits
    obtain ⟨c, cs, rfl⟩ := List.exists_cons_of_ne_nil hdigits.1
    refine ⟨negative, natOfDigits (c :: cs), ?_, (Option.some.inj h).symm⟩
    rw [ofString?_of_digit hsplit (hdigits.2 c List.mem_cons_self), Scientific.ofChars?_whole hdigits.1 hdigits.2]
    rfl

theorem word_natural {n : Nat} (hn : n < 2 ^ 64) :
    Scientific.word .double ⟨n, 0⟩ = WordFormat.double.nearest n 1 := by
  unfold Scientific.word
  by_cases hzero : n = 0
  · subst hzero
    rw [nearest_zero]
    rfl
  · have hlength : (Nat.toDigits 10 n).length ≤ 20 :=
      (Nat.length_toDigits_le_iff (by decide) (by decide)).mpr (by omega)
    simp only [hzero, decide_false, Bool.false_or, decide_eq_true_eq]
    rw [if_neg (by omega), if_neg (by omega)]
    show WordFormat.double.nearest (n * 1) 1 = _
    rw [Nat.mul_one]

/-- No integer has the double that is zero with a minus. -/
theorem ofInt_ne_neg_zero {i : Int} (hi : i.natAbs < 2 ^ 64) : Float.ofInt i ≠ -0 := by
  intro h
  have hbits := toBits_ofInt hi
  have hzero : (-0 : Float).toBits.toNat = 2 ^ 63 := by decide +kernel
  have hsign : WordFormat.double.signBit = 2 ^ 63 := rfl
  rw [h, hzero, WordFormat.withSign, hsign] at hbits
  by_cases hneg : i < 0
  · have hpos := nearest_pos (n := i.natAbs) (by omega) hi
    rw [decide_eq_true hneg, if_pos rfl] at hbits
    omega
  · have hle : WordFormat.double.nearest i.natAbs 1 ≤ WordFormat.double.infinity := by
      unfold WordFormat.nearest
      split
      · exact Nat.zero_le _
      · exact Nat.min_le_left _ _
    have hinfinity : WordFormat.double.infinity = 2047 * 2 ^ 52 := rfl
    rw [decide_eq_false hneg, if_neg Bool.false_ne_true] at hbits
    omega

theorem toInt_of_int64OfInt? {j : Int} {i : Int64} (h : int64OfInt? j = some i) : i.toInt = j := by
  unfold int64OfInt? at h
  split at h
  · rename_i hrange
    rw [Bool.and_eq_true, decide_eq_true_eq, decide_eq_true_eq] at hrange
    have hmin : Int64.minValue.toInt = -2 ^ 63 := by decide
    have hmax : Int64.maxValue.toInt = 2 ^ 63 - 1 := by decide
    cases h
    exact Int64.toInt_ofInt_of_le (by omega) (by omega)
  · cases h

/-- A text that is read as an integer is read as the double of the integer, or it is zero with a minus. -/
theorem float?_of_int64? {s : String} {i : Int64} (h : int64? s = some i) :
    float? s = some (Float.ofInt i.toInt) ∨ i.toInt = 0 ∧ float? s = some (-0) := by
  obtain ⟨j, hj, hi⟩ := Option.bind_eq_some_iff.mp h
  rw [toInt_of_int64OfInt? hi]
  have hrange : j.natAbs < 2 ^ 64 := by
    have := i.toInt_lt
    have := i.le_toInt
    rw [← toInt_of_int64OfInt? hi]
    omega
  obtain ⟨negative, n, hread, hn⟩ := ofString?_of_signedDigits? hj
  have hnat : j.natAbs = n := by
    split at hn <;> omega
  have hfloat : float? s = some (Float.ofBits (WordFormat.double.withSign negative
      (WordFormat.double.nearest j.natAbs 1)).toUInt64) := by
    rw [float?, hread, Option.map_some, hnat, ← word_natural (by omega)]
    rfl
  rw [hfloat]
  by_cases hzero : negative = true ∧ n = 0
  · right
    obtain ⟨rfl, rfl⟩ := hzero
    refine ⟨by omega, ?_⟩
    rw [hnat, nearest_zero]
    decide +kernel
  · left
    have hsign : decide (j < 0) = negative := by
      cases negative
      · exact decide_eq_false (by simp at hn; omega)
      · exact decide_eq_true (by simp at hn hzero; omega)
    rw [← hsign, ← toBits_ofInt hrange, Nat.toUInt64_eq, UInt64.ofNat_toNat, Float.ofBits_toBits]

end Scoring.Decimal
