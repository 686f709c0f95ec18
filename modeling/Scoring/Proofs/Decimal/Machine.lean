import Mathlib
import Scoring.Proofs.Decimal.Reading

/-!
# Machine — the numbers of the machine and their words

The words of `Float` and `Float32`, taken apart here and by their own model, are the same (`unpack_toNat`), and a number
that is packed is its word (`toNat_pack`). So what is proved of words holds of the numbers: each is read back from its
text.
-/

namespace Scoring.Decimal

open Float.Model Float.Model.UnpackedFloat

def WordFormat.ofModel (spec : Format) : WordFormat :=
  ⟨spec.mantissaBitsWithoutImplicit, spec.exponentBits⟩

namespace Machine

variable {spec : Format}

/-! ## 1. Bits -/

theorem toNat_unpackMantissa (b : BitVec spec.numBits) :
    (unpackMantissa b).toNat = b.toNat % 2 ^ spec.mantissaBitsWithoutImplicit := by
  have hm := spec.hm
  unfold unpackMantissa
  rw [BitVec.toNat_cast, BitVec.extractLsb_toNat, Nat.shiftRight_zero]
  congr 2
  omega

theorem toNat_unpackExponent (b : BitVec spec.numBits) :
    (unpackExponent b).toNat = b.toNat / 2 ^ spec.mantissaBitsWithoutImplicit % 2 ^ spec.exponentBits := by
  have he := spec.he
  unfold unpackExponent
  rw [BitVec.toNat_cast, BitVec.extractLsb_toNat, Nat.shiftRight_eq_div_pow]
  congr 2
  omega

theorem toNat_unpackSign (b : BitVec spec.numBits) :
    (unpackSign b).toNat = b.toNat / 2 ^ (spec.mantissaBitsWithoutImplicit + spec.exponentBits) % 2 := by
  unfold unpackSign
  rw [BitVec.toNat_cast, BitVec.extractLsb_toNat, Nat.shiftRight_eq_div_pow, Nat.sub_self]

def isNegative : Sign → Bool
  | .negative => true
  | .positive => false

theorem isNegative_ofBitVec (b : BitVec 1) : isNegative (.ofBitVec b) = (b.toNat == 1) := by
  have hlt := b.isLt
  unfold Sign.ofBitVec
  split
  · rename_i h
    rw [h]
    rfl
  · rename_i h
    have hone : b.toNat = 1 := by
      have : b.toNat ≠ 0 := fun hzero => h (BitVec.eq_of_toNat_eq hzero)
      omega
    rw [hone]
    rfl

theorem toNat_packComponents (s : Sign) (e : BitVec spec.exponentBits) (m : BitVec spec.mantissaBitsWithoutImplicit) :
    (packComponents spec s e m).toNat =
      (WordFormat.ofModel spec).withSign (isNegative s) (e.toNat * 2 ^ spec.mantissaBitsWithoutImplicit + m.toNat) := by
  have hsign : (WordFormat.ofModel spec).signBit = 2 ^ spec.exponentBits * 2 ^ spec.mantissaBitsWithoutImplicit :=
    (Nat.pow_add 2 _ _).trans (Nat.mul_comm _ _)
  unfold packComponents WordFormat.withSign
  rw [BitVec.toNat_append, BitVec.toNat_append, ← Nat.shiftLeft_add_eq_or_of_lt e.isLt,
    ← Nat.shiftLeft_add_eq_or_of_lt m.isLt, Nat.shiftLeft_eq, Nat.shiftLeft_eq, hsign, Nat.add_mul]
  cases s
  · show 1 * 2 ^ spec.exponentBits * _ + _ + _ = 2 ^ spec.exponentBits * _ + _
    rw [Nat.one_mul, Nat.add_assoc]
  · show 0 * 2 ^ spec.exponentBits * _ + _ + _ = 0 + _
    rw [Nat.zero_mul, Nat.zero_mul, Nat.zero_add, Nat.zero_add]

/-! ## 2. Taking words apart -/

/-- What the model of the machine takes a word apart into, as the word format has it. -/
def ofUnpacked (f : WordFormat) : UnpackedFloat → Unpacked
  | .infinity s => .infinite (isNegative s)
  | .notANumber => .nan
  | .zero s => .finite (isNegative s) 0 f.lowest
  | .finite s m e _ => .finite (isNegative s) m e

theorem lowest_eq (spec : Format) (field : Nat) :
    (WordFormat.ofModel spec).lowest + field - 1 =
      (field : Int) - (spec.exponentBias + spec.mantissaBitsWithoutImplicit) := by
  have hpos := Nat.pow_pos (n := spec.exponentBits - 1) (show 0 < 2 by decide)
  unfold WordFormat.lowest Format.exponentBias
  simp only [bitValue_eq, WordFormat.ofModel]
  omega

theorem eq_allOnes_iff {n : Nat} (b : BitVec n) : b = -1#n ↔ b.toNat + 1 = 2 ^ n := by
  have hpos := Nat.pow_pos (n := n) (show 0 < 2 by decide)
  rw [← BitVec.toNat_inj, BitVec.neg_one_eq_allOnes, BitVec.toNat_allOnes]
  omega

theorem eq_zero_iff {n : Nat} (b : BitVec n) : b = 0#n ↔ b.toNat = 0 := by
  rw [← BitVec.toNat_inj, BitVec.toNat_zero]

/-- Both take the words of the machine apart in the same way. -/
theorem unpack_toNat (b : BitVec spec.numBits) :
    (WordFormat.ofModel spec).unpack b.toNat = ofUnpacked (WordFormat.ofModel spec) (UnpackedFloat.unpack spec b) := by
  have hparts : (WordFormat.ofModel spec).unpack b.toNat =
      if (unpackExponent b).toNat + 1 = 2 ^ spec.exponentBits then
        if (unpackMantissa b).toNat = 0 then .infinite (isNegative (.ofBitVec (unpackSign b))) else .nan
      else if (unpackExponent b).toNat = 0 then
        .finite (isNegative (.ofBitVec (unpackSign b))) (unpackMantissa b).toNat (WordFormat.ofModel spec).lowest
      else
        .finite (isNegative (.ofBitVec (unpackSign b)))
          (2 ^ spec.mantissaBitsWithoutImplicit + (unpackMantissa b).toNat)
          ((WordFormat.ofModel spec).lowest + (unpackExponent b).toNat - 1) := by
    rw [isNegative_ofBitVec, toNat_unpackSign, toNat_unpackMantissa, toNat_unpackExponent]
    rfl
  rw [hparts]
  unfold UnpackedFloat.unpack
  simp only
  by_cases hall : (unpackExponent b).toNat + 1 = 2 ^ spec.exponentBits
  · rw [if_pos hall, if_pos ((eq_allOnes_iff _).mpr hall)]
    by_cases hmantissa : (unpackMantissa b).toNat = 0
    · rw [if_pos hmantissa, if_pos ((eq_zero_iff _).mpr hmantissa)]
      rfl
    · rw [if_neg hmantissa, if_neg (mt (eq_zero_iff _).mp hmantissa)]
      rfl
  · rw [if_neg hall, if_neg (mt (eq_allOnes_iff _).mp hall)]
    have hlowest := lowest_eq spec (unpackExponent b).toNat
    by_cases hfield : (unpackExponent b).toNat = 0
    · rw [if_pos hfield, if_pos ((eq_zero_iff _).mpr hfield)]
      rw [hfield] at hlowest ⊢
      by_cases hmantissa : (unpackMantissa b).toNat = 0
      · rw [dif_pos ((eq_zero_iff _).mpr hmantissa), hmantissa]
        rfl
      · rw [dif_neg (mt (eq_zero_iff _).mp hmantissa)]
        show Unpacked.finite _ _ (WordFormat.ofModel spec).lowest = Unpacked.finite _ _ _
        congr 1
        omega
    · rw [if_neg hfield, if_neg (mt (eq_zero_iff _).mp hfield)]
      have hbit : (1#1 ++ unpackMantissa b).toNat =
          2 ^ spec.mantissaBitsWithoutImplicit + (unpackMantissa b).toNat := by
        rw [BitVec.toNat_append, ← Nat.shiftLeft_add_eq_or_of_lt (unpackMantissa b).isLt, Nat.shiftLeft_eq]
        show 1 * _ + _ = _
        rw [Nat.one_mul]
      show Unpacked.finite _ _ ((WordFormat.ofModel spec).lowest + _ - 1) = Unpacked.finite _ _ _
      rw [hlowest, hbit]

/-! ## 3. Putting words together -/

theorem toNat_lt (b : BitVec spec.numBits) : b.toNat < 2 * (WordFormat.ofModel spec).signBit := by
  have hlt := b.isLt
  have hbits : (2 : Nat) ^ spec.numBits = 2 * 2 ^ (spec.mantissaBitsWithoutImplicit + spec.exponentBits) := by
    rw [← Nat.pow_succ', Format.numBits]
    congr 1
    omega
  exact hlt.trans_eq hbits

theorem toNat_packedNaN : (packedNaN spec).toNat = (WordFormat.ofModel spec).infinity +
    bitValue ((WordFormat.ofModel spec).fractionBits - 1) := by
  have hall := (eq_allOnes_iff (-1#(spec.exponentBits))).mp rfl
  have hm := spec.hm
  have hquiet : (1#(spec.mantissaBitsWithoutImplicit) <<< (spec.mantissaBitsWithoutImplicit - 1)).toNat =
      2 ^ (spec.mantissaBitsWithoutImplicit - 1) := by
    have hone : (1#(spec.mantissaBitsWithoutImplicit)).toNat = 1 := Nat.mod_eq_of_lt (Nat.one_lt_two_pow hm.ne')
    rw [BitVec.toNat_shiftLeft, hone, Nat.shiftLeft_eq, Nat.one_mul]
    exact Nat.mod_eq_of_lt (Nat.pow_lt_pow_right (by decide) (by omega))
  rw [packedNaN, toNat_packComponents, show (-1#(spec.exponentBits)).toNat = 2 ^ spec.exponentBits - 1 by omega, hquiet,
    WordFormat.withSign]
  exact Nat.zero_add _

theorem biased_eq {e : Int} (he : (WordFormat.ofModel spec).lowest ≤ e) :
    (e + spec.exponentBias + spec.mantissaBitsWithoutImplicit).toNat =
      (e - (WordFormat.ofModel spec).lowest).toNat + 1 := by
  have hlowest := lowest_eq spec 0
  omega

/-- Packing a number gives its word. -/
theorem toNat_pack (hbits : 1 < spec.exponentBits) {m : Nat} {e : Int} (hc : (WordFormat.ofModel spec).Canonical m e)
    (hfinite : (WordFormat.ofModel spec).pack m e < (WordFormat.ofModel spec).infinity) (s : Sign) (hm : 0 < m) :
    (UnpackedFloat.pack spec (.finite s m e hm)).toNat =
      (WordFormat.ofModel spec).withSign (isNegative s) ((WordFormat.ofModel spec).pack m e) := by
  have hbiased := biased_eq hc.lowest_le
  have hfour : 4 ≤ 2 ^ spec.exponentBits := Nat.pow_le_pow_right (show 0 < 2 by decide) hbits
  have hlt := hc.lt
  change m < 2 ^ (spec.mantissaBitsWithoutImplicit + 1) at hlt
  have hroom : (e - (WordFormat.ofModel spec).lowest).toNat + 1 < 2 ^ spec.exponentBits - 1 := by
    rcases hc.normal with hnormal | hlow
    · exact WordFormat.field_lt hnormal hfinite
    · omega
  unfold UnpackedFloat.pack WordFormat.pack
  simp only [hbiased]
  generalize hsteps : (e - (WordFormat.ofModel spec).lowest).toNat = steps at hroom ⊢
  rw [if_neg (by omega)]
  by_cases hnormal : 2 ^ spec.mantissaBitsWithoutImplicit ≤ m
  · have hlog : m.log2 = spec.mantissaBitsWithoutImplicit := (Nat.log2_eq_iff hm.ne').mpr ⟨hnormal, hlt⟩
    rw [if_pos (by rw [hlog, Format.mantissaBits]; omega), toNat_packComponents, BitVec.toNat_ofNat, BitVec.toNat_ofNat,
      Nat.mod_eq_of_lt (show steps + 1 < 2 ^ spec.exponentBits by omega)]
    congr 1
    -- the mantissa loses its first bit, and the exponent field gets one more
    have hfraction : m % 2 ^ spec.mantissaBitsWithoutImplicit = m - 2 ^ spec.mantissaBitsWithoutImplicit := by
      rw [pow_succ] at hlt
      rw [Nat.mod_eq_sub_mod hnormal, Nat.mod_eq_of_lt (by omega)]
    rw [hfraction, Nat.add_mul, Nat.one_mul]
    show _ = steps * 2 ^ spec.mantissaBitsWithoutImplicit + m
    omega
  · have hlow := hc.normal.resolve_left hnormal
    have hlog : ¬ m.log2 + 1 = spec.mantissaBits := by
      have := (Nat.log2_lt hm.ne').mpr (Nat.lt_of_not_le hnormal)
      unfold Format.mantissaBits
      omega
    rw [if_neg hlog, toNat_packComponents, BitVec.toNat_ofNat, BitVec.toNat_ofNat, Nat.zero_mod,
      Nat.mod_eq_of_lt (Nat.lt_of_not_le hnormal), show steps = 0 by omega]
    rfl

/-! ## 4. Words of the machine -/

theorem quiet_toNat (hbits : 2 ≤ spec.exponentBits) {b : BitVec spec.numBits} (hb : spec.Valid b) :
    (WordFormat.ofModel spec).Quiet b.toNat := by
  refine ⟨toNat_lt b, fun h => ?_⟩
  rw [unpack_toNat] at h
  have hnan : UnpackedFloat.unpack spec b = .notANumber := by
    cases hu : UnpackedFloat.unpack spec b with
    | notANumber => rfl
    | infinity s =>
      rw [hu] at h
      cases h
    | zero s =>
      rw [hu] at h
      cases h
    | finite s m e hm =>
      rw [hu] at h
      cases h
  rw [(unpack_eq_notANumber_iff_of_valid hb hbits).mp hnan]
  exact toNat_packedNaN

end Machine

open Machine

/-! ## 5. Texts -/

/-- A double is read back from the text of messages and keys. -/
@[simp] theorem float?_plainText (x : Float) : float? (plainText x) = some x := by
  have hword := word_shortestText WordFormat.double_readable (quiet_toNat (by decide) x.toModel.valid)
  obtain ⟨l, hl, hx⟩ := Option.map_eq_some_iff.mp hword
  show (Literal.ofString? (shortestText .double .plain x.toBits.toNat)).map Literal.toFloat = some x
  have hl' : Literal.ofString? (shortestText .double .plain x.toBits.toNat) = some l := hl
  have hx' : l.word .double = x.toBits.toNat := hx
  rw [hl', Option.map_some, Literal.toFloat, hx', Nat.toUInt64_eq, UInt64.ofNat_toNat, Float.ofBits_toBits]

/-- A single-precision number is read back from its text. -/
@[simp] theorem float32?_plainText32 (x : Float32) : float32? (plainText32 x) = some x := by
  have hword := word_shortestText WordFormat.single_readable (quiet_toNat (by decide) x.toModel.valid)
  obtain ⟨l, hl, hx⟩ := Option.map_eq_some_iff.mp hword
  show (Literal.ofString? (shortestText .single .plain x.toBits.toNat)).map Literal.toFloat32 = some x
  have hl' : Literal.ofString? (shortestText .single .plain x.toBits.toNat) = some l := hl
  have hx' : l.word .single = x.toBits.toNat := hx
  rw [hl', Option.map_some, Literal.toFloat32, hx', Nat.toUInt32_eq, UInt32.ofNat_toNat, Float32.ofBits_toBits]

theorem plainText_inj {x y : Float} : plainText x = plainText y ↔ x = y := by
  refine ⟨fun h => ?_, congrArg plainText⟩
  have hread := float?_plainText x
  rw [h, float?_plainText] at hread
  exact (Option.some.inj hread).symm

theorem plainText32_inj {x y : Float32} : plainText32 x = plainText32 y ↔ x = y := by
  refine ⟨fun h => ?_, congrArg plainText32⟩
  have hread := float32?_plainText32 x
  rw [h, float32?_plainText32] at hread
  exact (Option.some.inj hread).symm

end Scoring.Decimal
