import Scoring.Proofs.Field.Resolution
import Scoring.Proofs.Layout.Span
import Scoring.Proofs.Scalar.Key

/-!
# Replacement — the category that stands in for a missing value

The mining schema names a category as a literal, which is read by the type of the field before it is looked up, while
declared categories are looked up as they are written. The category that is named is the one that is observed as long as
reading leaves its key (`entries_of_replacement`); else the record is refused or shows another category.
-/

namespace Scoring

open Spec

/-! ## 1. The value of the schema -/

/-- A field whose replacement can be read has it as its only value where the record has none. -/
theorem Scope.values_of_replacement {s : Scope} {name : String} {f : Field} (hf : s.resolve name = .ok f) {c : String}
    (hc : s.replacement? f.raw = some c) {r : Record} (hr : r.get f.raw.name = []) :
    ∃ v, Scalar.parse c f.raw.dataType = .ok v ∧ f.values r = [v] := by
  unfold resolve at hf
  simp only [Outcome.bind_eq_ok] at hf
  obtain ⟨⟨raw, constants⟩, -, first, hfirst, hf⟩ := hf
  cases hf
  rcases supplied_eq_ok.mp hfirst with ⟨hnone, -⟩ | ⟨literal, v, hsome, hv, rfl⟩
  · rw [hnone] at hc
    cases hc
  · rw [hsome, Option.some.injEq] at hc
    subst hc
    exact ⟨v, hv, Field.values_of_missing _ r hr rfl⟩

namespace Span

/-! ## 2. The span -/

/-- The span of a categorical field has categories of different keys. -/
theorem eq_of_ofField_categorical {f : Field} {offset : Nat} {span : Span} (h : ofField f offset = .ok span)
    (hcategorical : f.optype = .categorical) :
    f.categories ≠ [] ∧ f.categoryKeys.Nodup ∧ span = ⟨offset, .categorical f⟩ := by
  rcases ofField_eq_ok.mp h with ⟨hcontinuous, -, -⟩ | ⟨-, hparts⟩
  · rw [hcontinuous] at hcategorical
    cases hcategorical
  · exact hparts

/-- A field with one value shows the category that has the key of the value, and no other. -/
theorem entries_of_position {f : Field} {offset : Nat} {r : Record} {v : Scalar} (hv : f.values r = [v]) {j : Nat}
    (hj : position? f (v.key f.raw.dataType) = some j) :
    entries ⟨offset, .categorical f⟩ r = .ok [(offset + j, 1.0)] := by
  unfold entries observed
  simp only [hv, List.mapM_cons, List.mapM_nil, hj]
  rfl

/-- A value without a category is an error. -/
theorem entries_of_undeclared {f : Field} {offset : Nat} {r : Record} {v : Scalar} (hv : f.values r = [v])
    (hnone : position? f (v.key f.raw.dataType) = none) :
    entries ⟨offset, .categorical f⟩ r = .error (.mismatch (.undeclaredCategory v f.name)) := by
  unfold entries observed
  simp only [hv, List.mapM_cons, List.mapM_nil, hnone]
  rfl

/-- A field with one value shows a category if and only if the value has the key of the category. -/
theorem entries_eq_iff_key_eq {f : Field} {offset : Nat} {span : Span} (hspan : ofField f offset = .ok span)
    (hcategorical : f.optype = .categorical) {i : Nat} {c : String} (hc : f.categories[i]? = some c) {r : Record}
    {v : Scalar} (hv : f.values r = [v]) :
    span.entries r = .ok [(offset + i, 1.0)] ↔ v.key f.raw.dataType = (Scalar.string c).key f.raw.dataType := by
  obtain ⟨-, hkeys, rfl⟩ := eq_of_ofField_categorical hspan hcategorical
  have hposition : position? f (v.key f.raw.dataType) = some i ↔
      v.key f.raw.dataType = (Scalar.string c).key f.raw.dataType := by
    rw [position?_eq_some_iff hkeys, Field.getElem?_categoryKeys hc, Option.some.injEq, eq_comm]
  rw [← hposition]
  cases hj : position? f (v.key f.raw.dataType) with
  | none => simp [entries_of_undeclared hv hj]
  | some j => simp [entries_of_position hv hj]

/-- Where a record has no value for a categorical field, the category that the mining schema names is stored if reading
its name leaves its key. Else another category is stored, or the record is refused. -/
theorem entries_of_replacement {s : Scope} {name : String} {f : Field} (hf : s.resolve name = .ok f) {offset : Nat}
    {span : Span} (hspan : ofField f offset = .ok span) (hcategorical : f.optype = .categorical) {c : String} {i : Nat}
    (hc : s.replacement? f.raw = some c) (hi : f.categories[i]? = some c) {r : Record} (hr : r.get f.raw.name = []) :
    (Scalar.KeepsKey f.raw.dataType c → span.entries r = .ok [(offset + i, 1.0)]) ∧
      (¬ Scalar.KeepsKey f.raw.dataType c → (∃ j, j ≠ i ∧ span.entries r = .ok [(offset + j, 1.0)]) ∨
        ∃ v, Scalar.parse c f.raw.dataType = .ok v ∧
          span.entries r = .error (.mismatch (.undeclaredCategory v f.name))) := by
  obtain ⟨v, hparse, hvalues⟩ := Scope.values_of_replacement hf hc hr
  obtain ⟨-, hkeys, rfl⟩ := eq_of_ofField_categorical hspan hcategorical
  have hkey := Field.getElem?_categoryKeys hi
  rw [← Scalar.keepsKey_iff hparse]
  refine ⟨fun hsame => ?_, fun hother => ?_⟩
  · rw [← hsame] at hkey
    exact entries_of_position hvalues ((position?_eq_some_iff hkeys).mpr hkey)
  · cases hposition : position? f (v.key f.raw.dataType) with
    | none => exact .inr ⟨v, hparse, entries_of_undeclared hvalues hposition⟩
    | some j =>
      refine .inl ⟨j, ?_, entries_of_position hvalues hposition⟩
      rintro rfl
      rw [position?_eq_some_iff hkeys, hkey, Option.some.injEq] at hposition
      exact hother hposition.symm

def workField : DataField :=
  .categorical "work" .string ["Private", " Other "]

def workScope (replacement : String) : Scope where
  dictionary := ⟨[workField]⟩
  derived := []
  schema := some ⟨[(MiningField.active "work").withReplacement replacement]⟩

theorem resolve_work (replacement : String) : (workScope replacement).resolve "work" =
    .ok ⟨"work", workField, .categorical, .string, [.string (Text.trim replacement)]⟩ := by
  have hraw : (workScope replacement).dictionary.field? "work" = some workField := rfl
  rw [Scope.resolve_of_field? hraw]
  rfl

theorem entries_of_replacement_private : ∃ f span, (workScope "Private").resolve "work" = .ok f ∧
    ofField f 3 = .ok span ∧ span.entries (fun _ => []) = .ok [(3 + 0, 1.0)] := by
  have hkept : Scalar.KeepsKey .string "Private" := by
    show Text.trim "Private" = "Private"
    decide +kernel
  have hspan : ofField ⟨"work", workField, .categorical, .string, [.string (Text.trim "Private")]⟩ 3 =
      .ok ⟨3, .categorical _⟩ :=
    ofField_eq_ok.mpr (.inr ⟨rfl, by decide, by decide +kernel, rfl⟩)
  exact ⟨_, _, resolve_work "Private", hspan,
    (entries_of_replacement (resolve_work "Private") hspan rfl rfl rfl rfl).1 hkept⟩

/-- A category with blanks around it, named in the mining schema as it is declared, is not found. -/
theorem blank_category_refused : ∃ f span, (workScope " Other ").resolve "work" = .ok f ∧ ofField f 3 = .ok span ∧
    f.categories[1]? = some " Other " ∧
    span.entries (fun _ => []) = .error (.mismatch (.undeclaredCategory (.string "Other") "work")) := by
  have htrim : Text.trim " Other " = "Other" := by decide +kernel
  have hresolve := resolve_work " Other "
  rw [htrim] at hresolve
  have hspan : ofField ⟨"work", workField, .categorical, .string, [.string "Other"]⟩ 3 = .ok ⟨3, .categorical _⟩ :=
    ofField_eq_ok.mpr (.inr ⟨rfl, by decide, by decide +kernel, rfl⟩)
  have hposition : position? ⟨"work", workField, .categorical, .string, [.string "Other"]⟩
      ((Scalar.string "Other").key .string) = none := by
    decide +kernel
  exact ⟨_, _, hresolve, hspan, rfl, entries_of_undeclared rfl hposition⟩

end Span

end Scoring
