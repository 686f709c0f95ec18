import Scoring.Condition
import Scoring.Proofs.Field.Observation

/-!
# Operand — the kinds of values that meet in a comparison

A field of numeric type holds doubles and every other field holds texts (`Scalar.IsOf`). What is observed of a field is
of that kind (`Intake.isOf_of_observe`), and so is the operand that a literal gives (`ofLiteral_eq_ok`). A comparison of
two values of one kind has an answer, so nothing but a missing value leaves it open (`isSome_scalars`).
-/

namespace Scoring

open Spec (DataType SimpleOperator)

/-! ## 1. What a field holds -/

inductive Scalar.IsOf (type : DataType) : Scalar → Prop
  | number (numeric : type.isNumeric = true) (x : Float) : IsOf type (.double x)
  | text (other : type.isNumeric = false) (s : String) : IsOf type (.string s)

namespace Scalar

theorem coerce?_of_numeric {type : DataType} (h : type.isNumeric = true) (v : Scalar) :
    v.coerce? type = v.number?.map .double := by
  unfold coerce?
  rw [if_pos h]

theorem coerce?_of_text {type : DataType} (h : type.isNumeric = false) (v : Scalar) :
    v.coerce? type = some (.string v.textKey) := by
  unfold coerce? key
  simp only [h, Bool.false_eq_true, if_false]

theorem isOf_of_coerce? {type : DataType} {v w : Scalar} (h : v.coerce? type = some w) : w.IsOf type := by
  by_cases hn : type.isNumeric = true
  · rw [coerce?_of_numeric hn, Option.map_eq_some_iff] at h
    obtain ⟨x, -, rfl⟩ := h
    exact .number hn x
  · rw [Bool.not_eq_true] at hn
    rw [coerce?_of_text hn, Option.some.injEq] at h
    rw [← h]
    exact .text hn _

theorem eq_of_toText? {v : Scalar} {s : String} (h : v.toText? = some s) : v = .string s := by
  cases v with
  | string t =>
    cases h
    rfl
  | integer | double | float => cases h

end Scalar

theorem Field.isOf_of_observe {f : Field} {r : Record} {w : Scalar} (h : f.observe r = .ok (some w)) :
    w.IsOf f.dataType := by
  unfold observe at h
  split at h
  · cases h
  · split at h
    · rename_i hcoerce
      cases h
      exact Scalar.isOf_of_coerce? hcoerce
    · cases h
  · cases h

theorem Intake.isOf_of_observe {i : Intake} {r : Record} {o : Observation} (h : i.observe r = .ok o) {name : String}
    {f : Field} (hf : i.find? name = some f) {w : Scalar} (hw : o.value? name = some w) : w.IsOf f.dataType := by
  have hfield := Intake.observe_of_find? h hf
  rw [hw] at hfield
  exact Field.isOf_of_observe hfield

/-! ## 2. Operands -/

/-- The operand that a literal gives for fields of a type. -/
inductive Scalar.Reads (type : DataType) (literal : String) : Scalar → Prop
  | number (numeric : type.isNumeric = true) {x : Float} (reads : Decimal.float? (Text.trim literal) = some x) :
      Reads type literal (.double x)
  | text (string : type = .string) : Reads type literal (.string (Text.trim literal))

theorem Scalar.Reads.isOf {type : DataType} {literal : String} {w : Scalar} (h : w.Reads type literal) :
    w.IsOf type := by
  cases h with
  | number numeric _ => exact .number numeric _
  | text string =>
    subst string
    exact .text rfl _

/-- A literal is read as a number for fields of numeric type, and then brought to the field's type. -/
theorem Scalar.exists_parse_iff {type : DataType} {literal : String} {w : Scalar} :
    (∃ v, Scalar.parse literal (if type.isNumeric = true then .double else type) = .ok v ∧ v.coerce? type = some w) ↔
      w.Reads type literal := by
  constructor
  · rintro ⟨v, hparse, hcoerce⟩
    unfold Scalar.parse at hparse
    by_cases hn : type.isNumeric = true
    · rw [if_pos hn] at hparse
      cases hx : Decimal.float? (Text.trim literal) with
      | none => simp [hx] at hparse
      | some x =>
        simp only [hx, Except.ok.injEq] at hparse
        subst hparse
        rw [coerce?_of_numeric hn] at hcoerce
        cases hcoerce
        exact .number hn hx
    · rw [if_neg hn] at hparse
      cases type with
      | double | float | integer => exact absurd rfl hn
      | boolean | date => cases hparse
      | string =>
        cases hparse
        cases hcoerce
        exact .text rfl
  · intro h
    cases h with
    | number numeric reads =>
      refine ⟨.double _, ?_, coerce?_of_numeric numeric _⟩
      unfold Scalar.parse
      rw [if_pos numeric]
      simp only [reads]
    | text string =>
      subst string
      exact ⟨.string (Text.trim literal), rfl, rfl⟩

namespace Condition

/-- A literal makes a comparison when it has a value of the field's type, and, where order matters, that is a number. -/
theorem ofLiteral_eq_ok {field : String} {type : DataType} {operator : SimpleOperator} {comparison : Comparison}
    {value : Option String} {c : Condition} :
    ofLiteral field type operator comparison value = .ok c ↔
      ∃ literal operand, value = some literal ∧ (comparison.isOrder = true → type.isNumeric = true) ∧
        operand.Reads type literal ∧ c = .compare field comparison operand := by
  unfold ofLiteral
  cases value with
  | none => simp
  | some literal =>
    by_cases horder : (comparison.isOrder && !type.isNumeric) = true
    · -- an order on texts is refused
      have hnot : ¬ (comparison.isOrder = true → type.isNumeric = true) := by
        intro h
        simp only [Bool.and_eq_true, Bool.not_eq_true'] at horder
        rw [h horder.1] at horder
        cases horder.2
      simp [horder, hnot]
    · have hnumeric : comparison.isOrder = true → type.isNumeric = true := by
        intro h
        simpa [h] using horder
      simp only [if_neg horder, Outcome.bind_eq_ok, Option.some.injEq, ← Scalar.exists_parse_iff]
      constructor
      · rintro ⟨v, hparse, hcoerce⟩
        split at hcoerce
        · rename_i operand hoperand
          cases hcoerce
          exact ⟨literal, operand, rfl, hnumeric, ⟨v, hparse, hoperand⟩, rfl⟩
        · cases hcoerce
      · rintro ⟨_, operand, rfl, -, ⟨v, hparse, hoperand⟩, rfl⟩
        refine ⟨v, hparse, ?_⟩
        rw [hoperand]

theorem isSome_scalars {type : DataType} {comparison : Comparison} {v w : Scalar} (hv : v.IsOf type)
    (hw : w.IsOf type) (horder : comparison.isOrder = true → type.isNumeric = true) :
    (comparison.scalars v w).isSome = true := by
  cases hv with
  | number numeric x =>
    cases hw with
    | number _ y => rfl
    | text other _ =>
      rw [numeric] at other
      cases other
  | text other s =>
    cases hw with
    | number numeric _ =>
      rw [numeric] at other
      cases other
    | text _ t =>
      -- texts have no order, but order is asked of numbers only
      cases comparison with
      | equal | notEqual => rfl
      | lessThan | lessOrEqual | greaterThan | greaterOrEqual =>
        rw [horder rfl] at other
        cases other

end Condition

end Scoring
