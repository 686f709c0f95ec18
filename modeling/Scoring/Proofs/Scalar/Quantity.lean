import Scoring.Proofs.Decimal.Quantity
import Scoring.Proofs.Layout.Replacement

/-!
# Quantity — equal numbers are one category

An integer, a number of either precision and a text of digits all denote an exact number, and the double that a value is
keyed by depends on that number alone. Values of one number are therefore one category of a field of numeric type, with
one exception: a zero has a sign, and keys keep it (`keys_of_same`).
-/

namespace Scoring

open Spec (DataType)
open Decimal (Quantity)

/-! ## 1. Numbers of values -/

/-- The exact number that a value denotes: its own, or the one that its text writes between blanks. -/
def Scalar.quantity? : Scalar → Option Quantity
  | .integer i => some (.finite (decide (i.toInt < 0)) i.toInt.natAbs (Nat.cast_nonneg _))
  | .double x => (Decimal.WordFormat.double.unpack x.toBits.toNat).quantity?
  | .float x => (Decimal.WordFormat.single.unpack x.toBits.toNat).quantity?
  | .string s => (Decimal.Literal.ofString? (Text.trim s)).bind Decimal.Literal.quantity?

namespace Scalar

/-- The double of a value is the double of the number that it denotes. -/
theorem number?_of_quantity? {v : Scalar} {q : Quantity} (h : v.quantity? = some q) : v.number? = some q.toFloat := by
  cases v with
  | integer i =>
    cases h
    rw [Decimal.toFloat_of_int (natAbs_toInt_lt i)]
    rfl
  | double x =>
    rw [Decimal.toFloat_of_quantity? h]
    rfl
  | float x =>
    rw [Decimal.toFloat_of_quantity?_single h]
    rfl
  | string s =>
    rw [quantity?, Option.bind_eq_some_iff] at h
    obtain ⟨l, hl, hq⟩ := h
    rw [Decimal.toFloat_of_literal hq, number?, Decimal.float?, hl, Option.map_some]

/-! ## 2. Keys -/

/-- The two zeros have different keys. -/
theorem numberKey_zeros {type : DataType} (s : Bool) (hp hq : (0 : ℚ) ≤ 0) :
    numberKey type (Quantity.finite s 0 hp).toFloat ≠ numberKey type (Quantity.finite (!s) 0 hq).toFloat := by
  have hword : ∀ (t : Bool) (h : (0 : ℚ) ≤ 0), (Quantity.finite t 0 h).toFloat =
      Float.ofBits (Decimal.WordFormat.double.withSign t 0).toUInt64 := by
    intro t h
    have hzero : ((0 : Nat) / (1 : Nat) : ℚ) = 0 := by norm_num
    rw [Quantity.toFloat, Quantity.word_finite .double Nat.one_pos hzero, Decimal.nearest_zero]
  rw [hword, hword]
  cases s <;> cases type <;> decide +kernel

/-- Two values of one number have one key, unless they are the two zeros. -/
theorem key_eq_iff_negative_eq {type : DataType} (hnumeric : type.isNumeric = true) {v w : Scalar} {p q : Quantity}
    (hv : v.quantity? = some p) (hw : w.quantity? = some q) (hsame : p.Same q) :
    v.key type = w.key type ↔ p.negative = q.negative := by
  rw [key_of_number hnumeric (number?_of_quantity? hv), key_of_number hnumeric (number?_of_quantity? hw)]
  constructor
  · intro hkey
    by_contra hsign
    obtain ⟨s, hp, hq, rfl, rfl⟩ := hsame.zeros hsign
    exact numberKey_zeros s hp hq hkey
  · intro hsign
    rw [hsame.eq_of_negative_eq hsign]

/-- Two values of one number have one key on fields of numeric type if their signs agree, as they do of every number but
zero. Then the one finds the category that is declared as the other. -/
theorem keys_of_same {v w : Scalar} {p q : Quantity} (hv : v.quantity? = some p) (hw : w.quantity? = some q)
    (hsame : p.Same q) :
    (∀ type : DataType, type.isNumeric = true → (v.key type = w.key type ↔ p.negative = q.negative)) ∧
      (¬ p.IsZero → p.negative = q.negative) ∧
      ∀ (f : Field) (offset : Nat) (span : Span) (i : Nat) (c : String) (r : Record),
        Span.ofField f offset = .ok span → f.optype = .categorical → f.raw.dataType.isNumeric = true →
        f.categories[i]? = some c → w = .string c → f.values r = [v] →
        (span.entries r = .ok [(offset + i, 1.0)] ↔ p.negative = q.negative) := by
  refine ⟨fun type hnumeric => key_eq_iff_negative_eq hnumeric hv hw hsame, hsame.negative_eq, ?_⟩
  intro f offset span i c r hspan hcategorical hnumeric hc hdeclared hvalues
  subst hdeclared
  rw [← key_eq_iff_negative_eq hnumeric hv hw hsame]
  exact Span.entries_eq_iff_key_eq hspan hcategorical hc hvalues

def gradeField : Field :=
  ⟨"grade", .categorical "grade" .integer ["0", " 2.0e0 "], .categorical, .integer, []⟩

theorem span_grade : Span.ofField gradeField 3 = .ok ⟨3, .categorical gradeField⟩ :=
  Span.ofField_eq_ok.mpr (.inr ⟨rfl, by decide, by decide +kernel, rfl⟩)

theorem keys_of_same_exponent : (integer 2).key .integer = (string " 2.0e0 ").key .integer ∧
    (Span.entries ⟨3, .categorical gradeField⟩ fun _ => [integer 2]) = .ok [(3 + 1, 1.0)] := by
  have hinteger : (2 : Int64).toInt = 2 := by decide
  have hv : (integer 2).quantity? = some (.finite false 2 (by norm_num)) := by
    simp only [quantity?, hinteger]
    rfl
  have hliteral : Decimal.Literal.ofString? (Text.trim " 2.0e0 ") = some (.finite false ⟨20, -1⟩) := by
    decide +kernel
  have hw : (string " 2.0e0 ").quantity? = some (.finite false (Decimal.Scientific.value ⟨20, -1⟩)
      (Decimal.Scientific.value_nonneg _)) := by
    rw [quantity?, hliteral]
    rfl
  have hsame : (Quantity.finite false 2 (by norm_num)).Same (.finite false (Decimal.Scientific.value ⟨20, -1⟩)
      (Decimal.Scientific.value_nonneg _)) := by
    show (2 : ℚ) = Decimal.Scientific.value ⟨20, -1⟩
    rw [Decimal.Scientific.value]
    norm_num
  obtain ⟨hkeys, -, hentries⟩ := keys_of_same hv hw hsame
  exact ⟨(hkeys .integer rfl).mpr rfl,
    (hentries _ 3 _ 1 _ (fun _ => [integer 2]) span_grade rfl rfl rfl rfl rfl).mpr rfl⟩

/-- The zeros are one number, but the one does not find the category that is declared as the other. -/
theorem zeros_differ : (∃ p q, (integer 0).quantity? = some p ∧ (double (-0.0)).quantity? = some q ∧ p.Same q) ∧
    (integer 0).key .integer ≠ (double (-0.0)).key .integer ∧
    Span.ofField gradeField 3 = .ok ⟨3, .categorical gradeField⟩ ∧
    Span.entries ⟨3, .categorical gradeField⟩ (fun _ => [integer 0]) = .ok [(3 + 0, 1.0)] ∧
    Span.entries ⟨3, .categorical gradeField⟩ (fun _ => [double (-0.0)]) =
      .error (.mismatch (.undeclaredCategory (double (-0.0)) "grade")) := by
  have hbits : (-0.0 : Float).toBits.toNat = 9223372036854775808 := by decide +kernel
  have hq : (double (-0.0)).quantity? = some (.finite true ((0 : Nat) * 2 ^ Decimal.WordFormat.double.lowest)
      (by positivity)) := by
    rw [quantity?, hbits]
    rfl
  refine ⟨⟨_, _, rfl, hq, ?_⟩, by decide +kernel, span_grade, ?_, ?_⟩
  · show (0 : ℚ) = _
    simp
  · exact Span.entries_of_position rfl (by decide +kernel)
  · exact Span.entries_of_undeclared rfl (by decide +kernel)

end Scalar

end Scoring
