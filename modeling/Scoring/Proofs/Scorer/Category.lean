import Scoring.Proofs.Condition.Membership
import Scoring.Proofs.Field.Resolution
import Scoring.Proofs.Layout.Replacement
import Scoring.Proofs.NaiveBayes.Likelihood
import Scoring.Proofs.Scalar.Quantity

/-!
# Category — one value, one category

Vectors take the key of a value as a record has it. Trees and naive Bayes models take it from an observation, where the
value is held as its field holds values. Holding a value leaves its key (`Scalar.key_of_coerce?`), so all three look up
one category wherever a field keeps the type of its raw field (`observed_category`).
-/

namespace Scoring

open Spec (BayesInput)

/-! ## 1. Values as they are held -/

/-- A value as fields of a type hold it has the key of the value itself. -/
theorem Scalar.key_of_coerce? {type : Spec.DataType} {v w : Scalar} (h : v.coerce? type = some w) :
    w.key type = v.key type := by
  by_cases hnumeric : type.isNumeric = true
  · rw [coerce?_of_numeric hnumeric, Option.map_eq_some_iff] at h
    obtain ⟨x, hx, rfl⟩ := h
    rw [key_of_number hnumeric hx, key_of_number hnumeric (v := .double x) rfl]
  · rw [Bool.not_eq_true] at hnumeric
    rw [coerce?_of_text hnumeric, Option.some.injEq] at h
    rw [← h, key_of_text hnumeric, key, hnumeric, if_neg Bool.false_ne_true]

/-! ## 2. Lookups -/

variable {i : Intake} {r : Record} {o : Observation} {n : String} {f : Field} {w : Scalar}

/-- What a test of set membership answers on a value. -/
theorem Condition.evaluate_set (hf : i.find? n = some f) (hw : o.value? n = some w) {operator : Spec.SetOperator}
    {values : List String} {c : Condition} (h : ofPredicate i (.set n operator values) = .ok c) :
    evaluate o c = some (decide (w.key f.dataType ∈ values.map f.keyOf) != (operator == .isNotIn)) := by
  obtain ⟨g, hg, rfl⟩ := ofPredicate_set_eq_ok.mp h
  cases hf.symm.trans hg
  rw [evaluate, hw, Option.map_some]
  rfl

namespace NaiveBayes

def logShares (classes : List String) (threshold : Float) (b : BayesInput) (f : Field) (k : String) : List Float :=
  classes.map fun c => Float.log (floored threshold (b.share f.keyOf k c))

/-- A counted input adds what it says about the key of a value that it knows, and fails on any other value. -/
theorem Tells.addEvidence_eq {classes : List String} {threshold : Float} {b : BayesInput} {e : Evidence}
    (h : Tells classes threshold b f e) (hcounted : b.pairCounts ≠ []) (hw : o.value? f.name = some w) (floor : Float)
    (totals : List Float) :
    addEvidence floor o totals e =
      if w.key f.dataType ∈ b.knownKeys f then
        .ok (totals.zipWith (· + ·) (logShares classes threshold b f (w.key f.dataType)))
      else .error (.mismatch (.unknownValue w f.name)) := by
  cases h with
  | counts counted names rows =>
    rename_i t
    simp only [addEvidence, hw]
    cases hrow : t.find? (w.key f.dataType) with
    | none =>
      rw [if_neg (mt (names _).mpr (Table.find?_eq_none_iff.mp hrow))]
    | some row =>
      have hknown : w.key f.dataType ∈ b.knownKeys f := by
        rw [← names, ← Table.contains_iff_mem_names, Table.contains, hrow]
        rfl
      rw [if_pos hknown, rows _ row hrow]
      rfl
  | normal uncounted _ => exact absurd uncounted hcounted

end NaiveBayes

/-- The keys that an input knows of a categorical field are those of its categories. -/
theorem Field.knownKeys_eq (htype : f.dataType = f.raw.dataType) (hcategorical : f.optype = .categorical)
    (hdeclared : f.categories ≠ []) (b : BayesInput) : b.knownKeys f = f.categoryKeys := by
  unfold Spec.BayesInput.knownKeys Field.categoryKeys
  rw [if_pos ⟨hcategorical, hdeclared⟩]
  unfold Field.keyOf
  rw [htype]

/-- A categorical field with one value shows the category that has the key of the value, or none is declared. -/
theorem Span.entries_of_value (htype : f.dataType = f.raw.dataType) (hcategorical : f.optype = .categorical)
    {offset : Nat} {span : Span} (hspan : ofField f offset = .ok span) {v : Scalar} (hv : f.values r = [v]) :
    (∃ j c, f.categories[j]? = some c ∧ v.key f.raw.dataType = f.keyOf c ∧
        span.entries r = .ok [(offset + j, 1.0)]) ∨
      (v.key f.raw.dataType ∉ f.categoryKeys ∧
        span.entries r = .error (.mismatch (.undeclaredCategory v f.name))) := by
  obtain ⟨-, hkeys, rfl⟩ := eq_of_ofField_categorical hspan hcategorical
  cases hposition : position? f (v.key f.raw.dataType) with
  | none => exact .inr ⟨position?_eq_none_iff.mp hposition, entries_of_undeclared hv hposition⟩
  | some j =>
    obtain ⟨c, hc⟩ : ∃ c, f.categories[j]? = some c := ⟨_, List.getElem?_eq_getElem (lt_of_position? hposition)⟩
    rw [position?_eq_some_iff hkeys, Field.getElem?_categoryKeys hc, Option.some.injEq] at hposition
    refine .inl ⟨j, c, hc, ?_, (entries_eq_iff_key_eq hspan hcategorical hc hv).mpr hposition.symm⟩
    rw [← hposition, Field.keyOf, htype]

/-! ## 3. One category -/

def Condition.TestsKey (i : Intake) (o : Observation) (n : String) (f : Field) (key : String) : Prop :=
  ∀ operator values c, ofPredicate i (.set n operator values) = .ok c →
    evaluate o c = some (decide (key ∈ values.map f.keyOf) != (operator == .isNotIn))

/-- Counted inputs weigh the classes by the key for the value of a field, and fail just if they do not know it. -/
def NaiveBayes.CountsKey (i : Intake) (o : Observation) (n : String) (f : Field) (w : Scalar) (key : String) : Prop :=
  ∀ m bayes b e floor totals, ofSpec m i = .ok bayes → (b, e) ∈ m.inputs.zip bayes.evidence → b.field = n →
    b.pairCounts ≠ [] → addEvidence floor o totals e =
      if key ∈ b.knownKeys f then .ok (totals.zipWith (· + ·) (logShares bayes.classes m.threshold b f key))
      else .error (.mismatch (.unknownValue w n))

theorem NaiveBayes.countsKey (hf : i.find? n = some f) (hname : f.name = n) (hw : o.value? n = some w) :
    CountsKey i o n f w (w.key f.dataType) := by
  intro m bayes b e floor totals hbayes hmem hfield hcounted
  obtain ⟨-, hlength, hinputs, hclasses, -⟩ := eq_of_ofSpec hbayes
  have hinput := (List.forall₂_iff_zip.mp hinputs).2 hmem
  obtain ⟨g, hg, htells⟩ := tells_of_ofInput (nodup_of_length_eraseDups hlength) hinput
  rw [hfield] at hg
  cases hf.symm.trans hg
  subst hname
  rw [hclasses, htells.addEvidence_eq hcounted hw]

/-- The key of a value stays as it is held by fields of any type. So what is observed of a field that keeps the type of
its raw field is looked up by the key of the value that the record has, in tests of set membership as in counted inputs,
and that is the category that a vector shows. Where vectors have no category for the value, no category that the field
declares is known by its key. -/
theorem observed_category :
    (∀ (type : Spec.DataType) (v w : Scalar), v.coerce? type = some w → w.key type = v.key type) ∧
    ∀ (s : Scope) (names : List String) (i : Intake) (r : Record) (o : Observation) (n : String) (f : Field)
      (w : Scalar), Intake.ofNames s names = .ok i → i.observe r = .ok o → i.find? n = some f →
      f.dataType = f.raw.dataType → o.value? n = some w →
      ∃ v, f.values r = [v] ∧ w.key f.dataType = v.key f.raw.dataType ∧
        Condition.TestsKey i o n f (v.key f.raw.dataType) ∧ NaiveBayes.CountsKey i o n f w (v.key f.raw.dataType) ∧
        ∀ (offset : Nat) (span : Span), Span.ofField f offset = .ok span → f.optype = .categorical →
          (∀ b : BayesInput, b.knownKeys f = f.categoryKeys) ∧
          ((∃ j c, f.categories[j]? = some c ∧ v.key f.raw.dataType = f.keyOf c ∧
              span.entries r = .ok [(offset + j, 1.0)]) ∨
            (v.key f.raw.dataType ∉ f.categoryKeys ∧
              span.entries r = .error (.mismatch (.undeclaredCategory v n)))) := by
  refine ⟨fun _ _ _ => Scalar.key_of_coerce?, ?_⟩
  intro s names i r o n f w hi ho hf htype hw
  have hname := Intake.name_of_find? hi hf
  have hfield := Intake.observe_of_find? ho hf
  rw [hw] at hfield
  obtain ⟨v, hv, hcoerce⟩ := Field.exists_of_observe hfield
  have hkey : w.key f.dataType = v.key f.raw.dataType := by
    rw [Scalar.key_of_coerce? hcoerce, htype]
  refine ⟨v, hv, hkey, ?_, ?_, fun offset span hspan hcategorical => ⟨fun b => ?_, ?_⟩⟩
  · intro operator values c hc
    rw [← hkey, Condition.evaluate_set hf hw hc]
  · rw [← hkey]
    exact NaiveBayes.countsKey hf hname hw
  · exact Field.knownKeys_eq htype hcategorical (Span.eq_of_ofField_categorical hspan hcategorical).1 b
  · rw [← hname]
    exact Span.entries_of_value htype hcategorical hspan hv

def gradeScope : Scope :=
  ⟨⟨[Scalar.gradeField.raw]⟩, [], none⟩

def gradeIntake : Intake :=
  Table.ofList [("grade", Scalar.gradeField)]

theorem ofNames_grade : Intake.ofNames gradeScope ["grade"] = .ok gradeIntake := by
  have hraw : gradeScope.dictionary.field? "grade" = some Scalar.gradeField.raw := rfl
  have hresolve : gradeScope.resolve "grade" = .ok Scalar.gradeField := by
    rw [Scope.resolve_of_field? hraw]
    rfl
  exact Intake.ofNames_singleton hresolve

/-- A text between blanks is observed as a number, and all three look up the grade of that number. -/
theorem observed_category_grade : ∃ o w, gradeIntake.observe (.ofJson (.object [("grade", .string " 2 ")])) = .ok o ∧
    o.value? "grade" = some w ∧ Condition.TestsKey gradeIntake o "grade" Scalar.gradeField "2" ∧
    NaiveBayes.CountsKey gradeIntake o "grade" Scalar.gradeField w "2" ∧
    Span.entries ⟨3, .categorical Scalar.gradeField⟩ (.ofJson (.object [("grade", .string " 2 ")])) =
      .ok [(3 + 1, 1.0)] := by
  have ho : (gradeIntake.observe (.ofJson (.object [("grade", .string " 2 ")]))).toOption.map (fun o =>
      (o.value? "grade").isSome) = some true := by decide +kernel
  obtain ⟨o, ho, hw⟩ := Outcome.exists_of_toOption_map ho
  obtain ⟨w, hw⟩ := Option.isSome_iff_exists.mp hw
  obtain ⟨v, hv, -, htests, hcounts, hvector⟩ :=
    observed_category.2 gradeScope ["grade"] gradeIntake _ o "grade" Scalar.gradeField w ofNames_grade ho rfl rfl hw
  obtain rfl : v = .string " 2 " := (List.singleton_inj.mp hv).symm
  have hkey : (Scalar.string " 2 ").key .integer = "2" := by decide +kernel
  refine ⟨o, w, ho, hw, hkey ▸ htests, hkey ▸ hcounts, ?_⟩
  obtain ⟨-, ⟨j, c, hj, hc, hentries⟩ | ⟨hnone, -⟩⟩ := hvector 3 _ Scalar.span_grade rfl
  · match j, hj with
    | 0, hj =>
      obtain rfl : "0" = c := Option.some.inj hj
      exact absurd hc (by decide +kernel)
    | 1, _ => exact hentries
    | j + 2, hj => cases hj
  · exact absurd (by decide +kernel) hnone

end Scoring
