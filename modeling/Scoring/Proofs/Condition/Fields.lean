import Scoring.Proofs.Condition.Known
import Scoring.Proofs.Field.Scope

/-!
# Fields — what a predicate tests, and what its condition reads

A predicate tests the fields that its parts name, at any depth (`Predicate.mem_fields`). Making a condition of it asks an
intake for these fields, so it fails for want of a field only where the intake lacks one of them
(`Condition.tests_of_ofPredicate`); and the condition that is made has an answer that depends on the values of these
fields alone (`Condition.ReadsOnly.evaluate_congr`).
-/

namespace Scoring

open Spec (CompoundOperator DataType Predicate SimpleOperator)

/-! ## 1. Tests -/

inductive Spec.Predicate.Tests (field : String) : Predicate → Prop
  | simple (operator : SimpleOperator) (value : Option String) : Tests field (.simple field operator value)
  | set (operator : Spec.SetOperator) (values : List String) : Tests field (.set field operator values)
  | part {operator : CompoundOperator} {parts : List Predicate} {p : Predicate} (mem : p ∈ parts)
      (tests : Tests field p) : Tests field (.compound operator parts)

namespace Spec.Predicate

mutual

theorem mem_fields {field : String} (p : Predicate) : field ∈ p.fields ↔ p.Tests field := by
  cases p with
  | always | never => exact iff_of_false List.not_mem_nil (fun h => by cases h)
  | simple name operator value =>
    rw [fields, List.mem_singleton]
    constructor
    · rintro rfl
      exact .simple operator value
    · rintro ⟨⟩
      rfl
  | set name operator values =>
    rw [fields, List.mem_singleton]
    constructor
    · rintro rfl
      exact .set operator values
    · rintro ⟨⟩
      rfl
  | compound operator parts =>
    rw [fields, mem_fieldsOfAll parts]
    constructor
    · rintro ⟨p, hp, htests⟩
      exact .part hp htests
    · rintro (_ | _ | ⟨hp, htests⟩)
      exact ⟨_, hp, htests⟩

theorem mem_fieldsOfAll {field : String} (ps : List Predicate) :
    field ∈ fieldsOfAll ps ↔ ∃ p ∈ ps, p.Tests field := by
  cases ps with
  | nil => simp [fieldsOfAll]
  | cons p rest => rw [fieldsOfAll, List.mem_append, mem_fields p, mem_fieldsOfAll rest, List.exists_mem_cons_iff]

end

end Spec.Predicate

namespace Condition

variable {i : Intake} {field name : String}

/-! ## 2. Fields that are asked for -/

theorem find?_of_fieldType (h : fieldType i name = .error (.malformed (.untestableField field))) :
    name = field ∧ i.find? name = none := by
  unfold fieldType at h
  split at h
  · cases h
  · rename_i hfind
    cases h
    exact ⟨rfl, hfind⟩

/-- Reading a literal asks for no field. -/
theorem ofLiteral_ne_untestable {type : DataType} {operator : SimpleOperator} {comparison : Comparison}
    {value : Option String} :
    ofLiteral name type operator comparison value ≠ .error (.malformed (.untestableField field)) := by
  intro h
  unfold ofLiteral at h
  split at h
  · cases h
  · split at h
    · cases h
    · rw [Outcome.bind_eq_error] at h
      rcases h with h | ⟨operand, -, h⟩
      · cases Scalar.ofField_of_parse h
      · split at h <;> cases h

theorem ofSimple_ne_untestable {type : DataType} {operator : SimpleOperator} {value : Option String} :
    ofSimple name type operator value ≠ .error (.malformed (.untestableField field)) := by
  cases operator with
  | isMissing | isNotMissing => exact nofun
  | equal | notEqual | lessThan | lessOrEqual | greaterThan | greaterOrEqual => exact ofLiteral_ne_untestable

mutual

/-- The field that is missed is one that the predicate tests and the intake does not know. -/
theorem tests_of_ofPredicate (p : Predicate) (h : ofPredicate i p = .error (.malformed (.untestableField field))) :
    p.Tests field ∧ i.find? field = none := by
  cases p with
  | always | never => cases h
  | simple name operator value =>
    rw [ofPredicate, Outcome.bind_eq_error] at h
    rcases h with h | ⟨type, -, h⟩
    · obtain ⟨rfl, hfind⟩ := find?_of_fieldType h
      exact ⟨.simple operator value, hfind⟩
    · exact absurd h ofSimple_ne_untestable
  | set name operator values =>
    rw [ofPredicate, Outcome.bind_eq_error] at h
    rcases h with h | ⟨type, -, h⟩
    · obtain ⟨rfl, hfind⟩ := find?_of_fieldType h
      exact ⟨.set operator values, hfind⟩
    · cases h
  | compound operator parts =>
    rw [ofPredicate, Outcome.bind_eq_error] at h
    rcases h with h | ⟨cs, -, h⟩
    · obtain ⟨⟨p, hp, htests⟩, hfind⟩ := tests_of_ofPredicates parts h
      exact ⟨.part hp htests, hfind⟩
    · cases h

theorem tests_of_ofPredicates (ps : List Predicate)
    (h : ofPredicates i ps = .error (.malformed (.untestableField field))) :
    (∃ p ∈ ps, p.Tests field) ∧ i.find? field = none := by
  cases ps with
  | nil => cases h
  | cons p rest =>
    rw [ofPredicates, Outcome.bind_eq_error] at h
    rcases h with h | ⟨c, -, h⟩
    · obtain ⟨htests, hfind⟩ := tests_of_ofPredicate p h
      exact ⟨⟨p, List.mem_cons_self, htests⟩, hfind⟩
    · rw [Outcome.bind_eq_error] at h
      rcases h with h | ⟨cs, -, h⟩
      · obtain ⟨⟨q, hq, htests⟩, hfind⟩ := tests_of_ofPredicates rest h
        exact ⟨⟨q, List.mem_cons_of_mem _ hq, htests⟩, hfind⟩
      · cases h

end

/-! ## 3. Fields that are read -/

inductive ReadsOnly (fields : List String) : Condition → Prop
  | always : ReadsOnly fields .always
  | never : ReadsOnly fields .never
  | compare {field : String} (mem : field ∈ fields) (comparison : Comparison) (operand : Scalar) :
      ReadsOnly fields (.compare field comparison operand)
  | isMissing {field : String} (mem : field ∈ fields) : ReadsOnly fields (.isMissing field)
  | isNotMissing {field : String} (mem : field ∈ fields) : ReadsOnly fields (.isNotMissing field)
  | inSet {field : String} (mem : field ∈ fields) (type : DataType) (members : List String) (negated : Bool) :
      ReadsOnly fields (.inSet field type members negated)
  | compound {op : CompoundOperator} {parts : List Condition} (each : ∀ p ∈ parts, ReadsOnly fields p) :
      ReadsOnly fields (ofCompound op parts)

/-- The answer stays the same when other fields change. -/
theorem ReadsOnly.evaluate_congr {fields : List String} {c : Condition} (hc : c.ReadsOnly fields) {o o' : Observation}
    (h : ∀ field ∈ fields, o'.value? field = o.value? field) : evaluate o' c = evaluate o c := by
  induction hc with
  | always | never => rw [evaluate, evaluate]
  | compare mem | isMissing mem | isNotMissing mem | inSet mem => rw [evaluate, evaluate, h _ mem]
  | compound _ ih =>
    rw [evaluate_ofCompound, evaluate_ofCompound, List.map_congr_left ih]

variable {fields : List String}

theorem TestsField.readsOnly {type : DataType} {operator : SimpleOperator} {c : Condition}
    (h : TestsField name type operator c) (hname : name ∈ fields) : c.ReadsOnly fields := by
  cases h with
  | isMissing => exact .isMissing hname
  | isNotMissing => exact .isNotMissing hname
  | compare => exact .compare hname _ _

mutual

/-- The condition of a predicate names none but the fields that the predicate tests. -/
theorem readsOnly_of_ofPredicate (p : Predicate) {c : Condition} (h : ofPredicate i p = .ok c)
    (hp : ∀ field, p.Tests field → field ∈ fields) : c.ReadsOnly fields := by
  cases p with
  | always =>
    cases h
    exact .always
  | never =>
    cases h
    exact .never
  | simple name operator value =>
    obtain ⟨f, -, hsimple⟩ := ofPredicate_simple_eq_ok.mp h
    exact (testsField_of_ofSimple hsimple).readsOnly (hp name (.simple operator value))
  | set name operator values =>
    obtain ⟨f, -, rfl⟩ := ofPredicate_set_eq_ok.mp h
    exact .inSet (hp name (.set operator values)) _ _ _
  | compound operator parts =>
    rw [ofPredicate, Outcome.bind_eq_ok] at h
    obtain ⟨cs, hcs, h⟩ := h
    cases h
    exact .compound (readsOnly_of_ofPredicates parts hcs fun q hq field htests => hp field (.part hq htests))

theorem readsOnly_of_ofPredicates (ps : List Predicate) {cs : List Condition} (h : ofPredicates i ps = .ok cs)
    (hps : ∀ p ∈ ps, ∀ field, p.Tests field → field ∈ fields) : ∀ c ∈ cs, c.ReadsOnly fields := by
  cases ps with
  | nil =>
    cases h
    exact List.forall_mem_nil _
  | cons p rest =>
    rw [ofPredicates, Outcome.bind_eq_ok] at h
    obtain ⟨c, hc, h⟩ := h
    rw [Outcome.bind_eq_ok] at h
    obtain ⟨cs, hcs, h⟩ := h
    cases h
    rw [List.forall_mem_cons] at hps ⊢
    exact ⟨readsOnly_of_ofPredicate p hc hps.1, readsOnly_of_ofPredicates rest hcs hps.2⟩

end

end Condition

end Scoring
