import Scoring.Proofs.Decimal.Integer
import Scoring.Scalar.Literal

/-!
# Key — which values are one category

Fields of numeric type find a number under the text of the number as they hold it, and a text of a number is the
number's own, so that two numbers are one category only if they are held as one (`numberKey_inj`). Integers are held as
doubles whatever the type: from `2 ^ 53` on neighbours share a double and with it a key (`integer_keys`).
-/

namespace Scoring.Scalar

open Spec (DataType)

/-! ## 1. Numbers -/

def HeldAlike (type : DataType) (x y : Float) : Prop :=
  if type = .float then Decimal.narrow x = Decimal.narrow y else x = y

theorem numberKey_inj {type : DataType} {x y : Float} : numberKey type x = numberKey type y ↔ HeldAlike type x y := by
  unfold HeldAlike
  by_cases hfloat : type = .float
  · subst hfloat
    rw [if_pos rfl]
    exact Decimal.plainText32_inj
  · have hkey : ∀ z, numberKey type z = Decimal.plainText z := by
      intro z
      cases type with
      | float => exact absurd rfl hfloat
      | double | integer | string | boolean | date => rfl
    rw [if_neg hfloat, hkey, hkey]
    exact Decimal.plainText_inj

/-- The key of a value that denotes a number, on a field of numeric type. -/
theorem key_of_number {type : DataType} (hnumeric : type.isNumeric = true) {v : Scalar} {x : Float}
    (hx : v.number? = some x) : v.key type = numberKey type x := by
  rw [key, if_pos hnumeric, hx]

theorem key_of_text {type : DataType} (hother : type.isNumeric = false) (s : String) : (string s).key type = s := by
  rw [key, hother, if_neg Bool.false_ne_true, textKey]

/-! ## 2. Integers -/

/-- An integer has the key of its double, as a number and as a text. -/
theorem key_integer {type : DataType} (htype : type ≠ .float) (i : Int64) :
    (integer i).key type = Decimal.plainText (Float.ofInt i.toInt) := by
  cases type with
  | float => exact absurd rfl htype
  | double | integer | string | boolean | date => rfl

theorem natAbs_toInt_lt (i : Int64) : i.toInt.natAbs < 2 ^ 64 := by
  have := i.toInt_lt
  have := i.le_toInt
  omega

/-- Two integers have one key if and only if they have one double. An integer that 53 bits can write has a key of its
own, and the key is its digits, as is that of the integer after it. -/
theorem integer_keys {type : DataType} (htype : type ≠ .float) (a b : Int64) :
    ((integer a).key type = (integer b).key type ↔ Float.ofInt a.toInt = Float.ofInt b.toInt) ∧
      (a.toInt.natAbs < 2 ^ 53 → (integer a).key type = (integer b).key type → a = b) ∧
      (a.toInt.natAbs ≤ 2 ^ 53 → (integer a).key type = toString a.toInt) := by
  rw [key_integer htype, key_integer htype, Decimal.plainText_inj]
  refine ⟨Iff.rfl, fun ha h => ?_, fun ha => Decimal.plainText_ofInt ha⟩
  exact Int64.toInt_inj.mp (Decimal.ofInt_inj_of_lt ha (natAbs_toInt_lt b) h)

theorem integer_keys_code : (integer 9007199254740991).key .string ≠ (integer 9007199254740993).key .string ∧
    (integer 9007199254740992).key .string = "9007199254740992" := by
  have hcode := integer_keys (show DataType.string ≠ .float by decide) 9007199254740991 9007199254740993
  have hnext := integer_keys (show DataType.string ≠ .float by decide) 9007199254740992 0
  refine ⟨fun h => absurd (hcode.2.1 (by decide) h) (by decide), ?_⟩
  rw [hnext.2.2 (by decide)]
  decide +kernel

/-- Two codes of sixteen digits are merged, and the one is not found under its digits. -/
theorem merged_codes : (9007199254740992 : Int64) ≠ 9007199254740993 ∧
    (integer 9007199254740992).key .integer = (integer 9007199254740993).key .integer ∧
    (integer 9007199254740992).key .string = (integer 9007199254740993).key .string ∧
    (integer 9007199254740993).key .string ≠ toString (9007199254740993 : Int64).toInt := by
  decide +kernel

/-! ## 3. Literals -/

/-- The value that a literal writes has the key of the literal itself, unless blanks around a text are lost, or the
minus of a zero, or single precision is reached by another way. -/
def KeepsKey (type : DataType) (literal : String) : Prop :=
  match type with
  | .double => True
  | .float => ∀ x y, Decimal.float32? (Text.trim literal) = some x → Decimal.float? (Text.trim literal) = some y →
      Decimal.narrow (Decimal.widen x) = Decimal.narrow y
  | .integer => Decimal.float? (Text.trim literal) ≠ some (-0)
  | .string => Text.trim literal = literal
  | .boolean | .date => False

/-- A literal that is read in single precision is read in double precision too. -/
theorem exists_float?_of_float32? {s : String} {x : Float32} (h : Decimal.float32? s = some x) :
    ∃ y, Decimal.float? s = some y := by
  obtain ⟨l, hl, -⟩ := Option.map_eq_some_iff.mp h
  exact ⟨l.toFloat, by rw [Decimal.float?, hl, Option.map_some]⟩

theorem keepsKey_iff {type : DataType} {literal : String} {v : Scalar} (h : parse literal type = .ok v) :
    v.key type = (string literal).key type ↔ KeepsKey type literal := by
  unfold parse at h
  cases type with
  | double =>
    cases hx : Decimal.float? (Text.trim literal) with
    | none => simp [hx] at h
    | some x =>
      simp only [hx, Except.ok.injEq] at h
      subst h
      rw [key_of_number rfl (x := x) rfl, key_of_number rfl (v := string literal) hx]
      exact iff_of_true rfl trivial
  | float =>
    cases hx : Decimal.float32? (Text.trim literal) with
    | none => simp [hx] at h
    | some x =>
      simp only [hx, Except.ok.injEq] at h
      subst h
      obtain ⟨y, hy⟩ := exists_float?_of_float32? hx
      rw [key_of_number rfl (x := Decimal.widen x) rfl, key_of_number rfl (v := string literal) hy, numberKey_inj]
      unfold HeldAlike KeepsKey
      rw [if_pos rfl]
      simp only [hx, hy, Option.some.injEq]
      constructor
      · rintro heq _ _ rfl rfl
        exact heq
      · intro heq
        exact heq x y rfl rfl
  | integer =>
    cases hi : Decimal.int64? (Text.trim literal) with
    | none => simp [hi] at h
    | some i =>
      simp only [hi, Except.ok.injEq] at h
      subst h
      have hlt := natAbs_toInt_lt i
      have hnumber : (integer i).number? = some (Float.ofInt i.toInt) := rfl
      rw [key_of_number rfl hnumber]
      rcases Decimal.float?_of_int64? hi with hy | ⟨hzero, hy⟩
      · rw [key_of_number rfl (v := string literal) hy]
        refine iff_of_true rfl fun hneg => ?_
        rw [hy, Option.some.injEq] at hneg
        exact Decimal.ofInt_ne_neg_zero hlt hneg
      · rw [key_of_number rfl (v := string literal) hy, numberKey_inj]
        exact iff_of_false (Decimal.ofInt_ne_neg_zero hlt) (fun hne => hne hy)
  | string =>
    cases h
    rw [key_of_text rfl, key_of_text rfl]
    rfl
  | boolean => cases h
  | date => cases h

end Scoring.Scalar
