import Scoring.Proofs.Condition
import Scoring.Proofs.Condition.Operand

/-!
# Known — an answer is unknown only for want of a value

A condition that was made of a predicate compares values with operands of their own kind, so that each of its
comparisons answers as soon as its field has a value. Compounds of known answers are known, a surrogate as soon as it
has a part at all. So a condition answers wherever every field that its predicate tests has a value (`answer_of_values`).
-/

namespace Scoring

open Spec (CompoundOperator Predicate SetOperator SimpleOperator)

/-! ## 1. Compounds of known answers -/

namespace Truth

/-- A connective that knows its answer to known parts knows it for any number of them. -/
theorem isSome_foldr {f : Truth → Truth → Truth} (hf : ∀ x y : Bool, (f (some x) (some y)).isSome = true)
    {e : Truth} (he : e.isSome = true) {ts : List Truth} (h : ∀ t ∈ ts, t.isSome = true) :
    (ts.foldr f e).isSome = true := by
  induction ts with
  | nil => exact he
  | cons t rest ih =>
    rw [List.forall_mem_cons] at h
    obtain ⟨x, rfl⟩ := Option.isSome_iff_exists.mp h.1
    obtain ⟨y, hy⟩ := Option.isSome_iff_exists.mp (ih h.2)
    rw [List.foldr_cons, hy]
    exact hf x y

/-- The first of some known answers is known. -/
theorem isSome_firstKnown {ts : List Truth} (h : ∀ t ∈ ts, t.isSome = true) (hne : ts ≠ []) :
    (firstKnown ts).isSome = true := by
  cases ts with
  | nil => exact absurd rfl hne
  | cons t rest =>
    obtain ⟨b, rfl⟩ := Option.isSome_iff_exists.mp (h t List.mem_cons_self)
    rfl

end Truth

namespace Condition

theorem isSome_join {op : CompoundOperator} {ts : List Truth} (h : ∀ t ∈ ts, t.isSome = true)
    (hne : op = .surrogate → ts ≠ []) : (join op ts).isSome = true := by
  cases op with
  | and =>
    rw [join, Truth.all_eq_foldr]
    exact Truth.isSome_foldr (by decide) rfl h
  | or =>
    rw [join, Truth.any_eq_foldr]
    exact Truth.isSome_foldr (by decide) rfl h
  | xor =>
    rw [join, Truth.parity_eq_foldr]
    exact Truth.isSome_foldr (by decide) rfl h
  | surrogate => exact Truth.isSome_firstKnown h (hne rfl)

end Condition

/-! ## 2. Predicates -/

mutual

/-- Every surrogate in a predicate has a part. -/
def Spec.Predicate.surrogatesFilled : Predicate → Bool
  | .always | .never | .simple _ _ _ | .set _ _ _ => true
  | .compound op parts => (op != .surrogate || !parts.isEmpty) && Spec.Predicate.allSurrogatesFilled parts

def Spec.Predicate.allSurrogatesFilled : List Predicate → Bool
  | [] => true
  | p :: rest => p.surrogatesFilled && Spec.Predicate.allSurrogatesFilled rest

end

namespace Condition

variable {i : Intake} {r : Record} {o : Observation}

theorem fieldType_eq_ok {field : String} {type : Spec.DataType} :
    fieldType i field = .ok type ↔ ∃ f, i.find? field = some f ∧ f.dataType = type := by
  unfold fieldType
  cases i.find? field with
  | none => simp
  | some f => simp

theorem ofPredicate_simple_eq_ok {field : String} {operator : SimpleOperator} {value : Option String} {c : Condition} :
    ofPredicate i (.simple field operator value) = .ok c ↔
      ∃ f, i.find? field = some f ∧ ofSimple field f.dataType operator value = .ok c := by
  rw [ofPredicate, Outcome.bind_eq_ok]
  constructor
  · rintro ⟨type, htype, h⟩
    obtain ⟨f, hf, rfl⟩ := fieldType_eq_ok.mp htype
    exact ⟨f, hf, h⟩
  · rintro ⟨f, hf, h⟩
    exact ⟨f.dataType, fieldType_eq_ok.mpr ⟨f, hf, rfl⟩, h⟩

theorem ofPredicate_set_eq_ok {field : String} {operator : SetOperator} {values : List String} {c : Condition} :
    ofPredicate i (.set field operator values) = .ok c ↔ ∃ f, i.find? field = some f ∧
      c = .inSet field f.dataType (values.map fun v => (Scalar.string v).key f.dataType) (operator == .isNotIn) := by
  rw [ofPredicate, Outcome.bind_eq_ok]
  constructor
  · rintro ⟨type, htype, h⟩
    obtain ⟨f, hf, rfl⟩ := fieldType_eq_ok.mp htype
    exact ⟨f, hf, (Except.ok.inj h).symm⟩
  · rintro ⟨f, hf, rfl⟩
    exact ⟨f.dataType, fieldType_eq_ok.mpr ⟨f, hf, rfl⟩, rfl⟩

inductive TestsField (field : String) (type : Spec.DataType) : SimpleOperator → Condition → Prop
  | isMissing : TestsField field type .isMissing (.isMissing field)
  | isNotMissing : TestsField field type .isNotMissing (.isNotMissing field)
  | compare {operator : SimpleOperator} {comparison : Comparison} {operand : Scalar}
      (value : operator ≠ .isMissing ∧ operator ≠ .isNotMissing)
      (order : comparison.isOrder = true → type.isNumeric = true) (kind : operand.IsOf type) :
      TestsField field type operator (.compare field comparison operand)

theorem testsField_of_ofSimple {field : String} {type : Spec.DataType} {operator : SimpleOperator}
    {value : Option String} {c : Condition} (h : ofSimple field type operator value = .ok c) :
    TestsField field type operator c := by
  unfold ofSimple at h
  cases operator with
  | isMissing =>
    cases h
    exact .isMissing
  | isNotMissing =>
    cases h
    exact .isNotMissing
  | equal | notEqual | lessThan | lessOrEqual | greaterThan | greaterOrEqual =>
    obtain ⟨literal, operand, -, horder, hreads, rfl⟩ := ofLiteral_eq_ok.mp h
    exact .compare (by decide) horder hreads.isOf

theorem TestsField.isSome_evaluate {field : String} {f : Field} (hf : i.find? field = some f)
    (ho : i.observe r = .ok o) {operator : SimpleOperator} {c : Condition}
    (h : TestsField field f.dataType operator c) (hvalue : (o.value? field).isSome = true) :
    (evaluate o c).isSome = true := by
  obtain ⟨v, hv⟩ := Option.isSome_iff_exists.mp hvalue
  cases h with
  | isMissing | isNotMissing =>
    rw [evaluate]
    rfl
  | compare value order kind =>
    rw [evaluate, hv]
    exact isSome_scalars (Intake.isOf_of_observe ho hf hv) kind order

/-- Without a value a test has no answer, unless it asks for just that. -/
theorem TestsField.evaluate_of_missing {field : String} {type : Spec.DataType} {operator : SimpleOperator}
    {c : Condition} (h : TestsField field type operator c) (hmissing : operator ≠ .isMissing)
    (hnotMissing : operator ≠ .isNotMissing) (hvalue : o.value? field = none) : evaluate o c = none := by
  cases h with
  | isMissing => exact absurd rfl hmissing
  | isNotMissing => exact absurd rfl hnotMissing
  | compare value order kind =>
    rw [evaluate, hvalue]
    rfl

mutual

/-- A condition answers wherever the tested fields have values. -/
theorem isSome_of_ofPredicate (ho : i.observe r = .ok o) {p : Predicate} {c : Condition}
    (h : ofPredicate i p = .ok c) (hparts : p.surrogatesFilled = true)
    (hvalues : ∀ n ∈ p.fields, (o.value? n).isSome = true) : (evaluate o c).isSome = true := by
  cases p with
  | always | never =>
    rw [ofPredicate] at h
    cases h
    rw [evaluate]
    rfl
  | simple field operator value =>
    obtain ⟨f, hf, h⟩ := ofPredicate_simple_eq_ok.mp h
    exact (testsField_of_ofSimple h).isSome_evaluate hf ho (hvalues field (by simp [Predicate.fields]))
  | set field operator values =>
    obtain ⟨f, -, rfl⟩ := ofPredicate_set_eq_ok.mp h
    rw [evaluate, Option.isSome_map]
    exact hvalues field (by simp [Predicate.fields])
  | compound op parts =>
    rw [ofPredicate, Outcome.bind_eq_ok] at h
    obtain ⟨cs, hcs, h⟩ := h
    cases h
    rw [Predicate.surrogatesFilled, Bool.and_eq_true] at hparts
    rw [evaluate_ofCompound]
    have hanswers := isSome_of_ofPredicates ho hcs hparts.2 hvalues
    refine isSome_join (List.forall_mem_map.mpr hanswers.1) fun hop hnil => ?_
    -- as many conditions as parts, and a surrogate has parts
    subst hop
    have hempty : parts = [] := by
      rw [← List.length_eq_zero_iff, ← hanswers.2, List.map_eq_nil_iff.mp hnil, List.length_nil]
    rw [hempty] at hparts
    cases hparts.1

theorem isSome_of_ofPredicates (ho : i.observe r = .ok o) {ps : List Predicate} {cs : List Condition}
    (h : ofPredicates i ps = .ok cs) (hparts : Predicate.allSurrogatesFilled ps = true)
    (hvalues : ∀ n ∈ Predicate.fieldsOfAll ps, (o.value? n).isSome = true) :
    (∀ c ∈ cs, (evaluate o c).isSome = true) ∧ cs.length = ps.length := by
  cases ps with
  | nil =>
    rw [ofPredicates] at h
    cases h
    exact ⟨List.forall_mem_nil _, rfl⟩
  | cons p rest =>
    rw [ofPredicates, Outcome.bind_eq_ok] at h
    obtain ⟨c, hc, h⟩ := h
    rw [Outcome.bind_eq_ok] at h
    obtain ⟨cs', hcs', h⟩ := h
    cases h
    rw [Predicate.allSurrogatesFilled, Bool.and_eq_true] at hparts
    rw [Predicate.fieldsOfAll, List.forall_mem_append] at hvalues
    obtain ⟨hrest, hlength⟩ := isSome_of_ofPredicates ho hcs' hparts.2 hvalues.2
    refine ⟨List.forall_mem_cons.mpr ⟨isSome_of_ofPredicate ho hc hparts.1 hvalues.1, hrest⟩, ?_⟩
    rw [List.length_cons, List.length_cons, hlength]

end

/-- Unknown means missing: a condition answers on what its intake observes as soon as every field that its predicate
tests has a value, as long as surrogates have parts. A single test of a value is unknown exactly when its field has
none. -/
theorem answer_of_values {p : Predicate} {c : Condition} (h : ofPredicate i p = .ok c) (ho : i.observe r = .ok o) :
    (p.surrogatesFilled = true → (∀ n ∈ p.testedFields, (o.value? n).isSome = true) →
      ∃ b, evaluate o c = some b) ∧
    (∀ field operator value, p = .simple field operator value → operator ≠ .isMissing → operator ≠ .isNotMissing →
      (evaluate o c = none ↔ o.value? field = none)) ∧
    ∀ field operator values, p = .set field operator values → (evaluate o c = none ↔ o.value? field = none) := by
  refine ⟨fun hparts hvalues => ?_, ?_, ?_⟩
  · refine Option.isSome_iff_exists.mp (isSome_of_ofPredicate ho h hparts fun n hn => hvalues n ?_)
    exact Table.mem_ofNames.mpr hn
  · rintro field operator value rfl hmissing hnotMissing
    obtain ⟨f, hf, h⟩ := ofPredicate_simple_eq_ok.mp h
    have htest := testsField_of_ofSimple h
    refine ⟨fun hnone => ?_, htest.evaluate_of_missing hmissing hnotMissing⟩
    by_contra hvalue
    have hanswer := htest.isSome_evaluate hf ho (Option.isSome_iff_ne_none.mpr hvalue)
    rw [hnone] at hanswer
    cases hanswer
  · rintro field operator values rfl
    obtain ⟨f, -, rfl⟩ := ofPredicate_set_eq_ok.mp h
    rw [evaluate, Option.map_eq_none_iff]

def workerIntake : Intake :=
  Table.ofList [("age", ⟨"age", .continuous "age" .integer, .continuous, .integer, []⟩),
    ("work", ⟨"work", .categorical "work" .string ["Private"], .categorical, .string, [.string "Private"]⟩)]

/-- A fraction as a bound for whole years, and a surrogate of one part. -/
def grownWorker : Predicate :=
  .compound .and [.simple "age" .greaterThan (some " 39.5 "),
    .compound .surrogate [.simple "work" .equal (some "Private")]]

/-- The age is written as a text, and the kind of work is supplied for a missing one. -/
theorem answer_of_values_worker : ∃ c o, ofPredicate workerIntake grownWorker = .ok c ∧
    workerIntake.observe (.ofJson (.object [("age", .string "40")])) = .ok o ∧
    grownWorker.surrogatesFilled = true ∧ (∀ n ∈ grownWorker.testedFields, (o.value? n).isSome = true) ∧
    ∃ b, evaluate o c = some b := by
  have hc : (ofPredicate workerIntake grownWorker).isOk = true := by decide +kernel
  have ho : (workerIntake.observe (.ofJson (.object [("age", .string "40")]))).toOption.map (fun o =>
      decide (∀ n ∈ grownWorker.testedFields, (o.value? n).isSome = true)) = some true := by decide +kernel
  obtain ⟨c, hc⟩ := Outcome.exists_of_isOk hc
  obtain ⟨o, ho, hvalues⟩ := Outcome.exists_of_toOption_map ho
  have hvalues := of_decide_eq_true hvalues
  exact ⟨c, o, hc, ho, by decide, hvalues, (answer_of_values hc ho).1 (by decide) hvalues⟩

end Condition

end Scoring
