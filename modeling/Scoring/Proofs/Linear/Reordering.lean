import Scoring.Proofs.Layout.Reordering
import Scoring.Proofs.Linear.Score
import Scoring.Proofs.Target

/-!
# Reordering — linear models whose terms are listed in another order

Coefficients that are computed elsewhere have to be lined up with the vectors of a compiled model, so it matters that
the layout comes from names and not from the order in which a model lists its terms. A model of either form compiles
to the same scorer when its terms are reordered, with the same spans, slots, coefficients and classes
(`terms_reordered`). Only the order of the declared parameters counts: the intercepts stand in it.
-/

namespace Scoring

open Spec (Document GeneralRegression RegressionTable)

/-! ## 1. Classes -/

theorem Classes.ofCategories_of_perm {categories categories' : List String}
    (h : categories.Perm categories') {target : Spec.DataField} {classes : Classes}
    (hc : ofCategories categories target = .ok classes) : ofCategories categories' target = .ok classes := by
  rw [ofCategories_eq_ok] at hc ⊢
  obtain ⟨⟨hne, hall⟩, hnegative⟩ := hc
  refine ⟨⟨fun hnil => hne (hnil ▸ h).eq_nil, fun x hx => hall x (h.mem_iff.mpr hx)⟩, hnegative⟩

namespace Compile

variable {d : Document}

/-! ## 2. General regression -/

/-- Two coefficients that are noted one after the other may be noted the other way round. -/
theorem addCoefficient_comm {declared : List String} {betas betas' : Table Float}
    {c c' : Spec.CoefficientCell}
    (h : (addCoefficient declared betas c >>= (addCoefficient declared · c')) = .ok betas') :
    (addCoefficient declared betas c' >>= (addCoefficient declared · c)) = .ok betas' := by
  obtain ⟨between, hc, hc'⟩ := Outcome.bind_eq_ok.mp h
  obtain ⟨htarget, hdeclared, hnew, rfl⟩ := addCoefficient_eq_ok.mp hc
  obtain ⟨htarget', hdeclared', hnew', rfl⟩ := addCoefficient_eq_ok.mp hc'
  rw [Table.mem_names_insert, not_or] at hnew'
  rw [Outcome.bind_eq_ok]
  refine ⟨betas.insert c'.parameter c'.beta,
    addCoefficient_eq_ok.mpr ⟨htarget', hdeclared', hnew'.2, rfl⟩,
    addCoefficient_eq_ok.mpr ⟨htarget, hdeclared, ?_, Table.insert_comm _ _ _ (Ne.symm hnew'.1)⟩⟩
  rw [Table.mem_names_insert, not_or]
  exact ⟨Ne.symm hnew'.1, hnew⟩

/-- A cell is read by asking whether its predictor is listed, not where. -/
theorem cellOf_eq_of_perm {m : GeneralRegression} {factors covariates : List String}
    (hfactors : m.factors.Perm factors) (hcovariates : m.covariates.Perm covariates)
    (predictorCells : List Spec.PredictorCell) (coefficientCells : List Spec.CoefficientCell) :
    cellOf { m with factors, covariates, predictorCells, coefficientCells } = cellOf m := by
  funext c
  unfold cellOf
  simp only [hfactors.mem_iff, hcovariates.mem_iff]

theorem generalRegression_of_perm {m : GeneralRegression} {factors covariates : List String}
    {predictorCells : List Spec.PredictorCell} {coefficientCells : List Spec.CoefficientCell}
    (hfactors : m.factors.Perm factors) (hcovariates : m.covariates.Perm covariates)
    (hpredictors : m.predictorCells.Perm predictorCells)
    (hcoefficients : m.coefficientCells.Perm coefficientCells) {s : Scorer}
    (h : generalRegression d m = .ok s) :
    generalRegression d { m with factors, covariates, predictorCells, coefficientCells } = .ok s := by
  obtain ⟨hfunction, hlogistic, cells, layout, betas, target, classes, v, hcells, hlayout, hbetas, htarget,
    hclasses, hv, hs⟩ := generalRegression_eq_ok.mp h
  obtain ⟨cells', hcells', hperm⟩ := Outcome.exists_mapM_of_perm hpredictors hcells
  refine generalRegression_eq_ok.mpr ⟨hfunction, hlogistic, cells', layout, betas, target, classes, v, ?_, ?_,
    ?_, htarget, ?_, hv, hs⟩
  · rw [cellOf_eq_of_perm hfactors hcovariates]
    exact hcells'
  · exact (Layout.arrange_eq_ok_iff_of_perm hperm).mp hlayout
  · refine Outcome.foldlM_of_perm ?_ hcoefficients hbetas
    intro betas betas' c c'
    exact addCoefficient_comm
  · exact Classes.ofCategories_of_perm (hcoefficients.filterMap _) hclasses

end Compile

/-! ## 3. Regression tables -/

structure Spec.RegressionTable.Reordered (t t' : RegressionTable) : Prop where
  intercept : t'.intercept = t.intercept
  targetCategory : t'.targetCategory = t.targetCategory
  numericTerms : t.numericTerms.Perm t'.numericTerms
  categoryTerms : t.categoryTerms.Perm t'.categoryTerms

namespace Spec.RegressionTable

/-- Of the parameters of a table only the intercept may be without a cell. -/
theorem unclaimed_eq (t : RegressionTable) :
    t.declarations.unclaimed =
      [Compile.interceptParameter].filter fun p => p ∉ t.declarations.cells.map (·.parameter) := by
  unfold Declarations.unclaimed
  rw [t.parameters_eq, List.filter_append]
  have hnone : (t.declarations.cells.map (·.parameter)).filter
      (fun p => p ∉ t.declarations.cells.map (·.parameter)) = [] := by
    refine List.filter_eq_nil_iff.mpr fun p hp => ?_
    simpa using hp
  rw [hnone, List.nil_append]

namespace Reordered

variable {t t' : RegressionTable}

theorem symm (h : t.Reordered t') : t'.Reordered t :=
  ⟨h.intercept.symm, h.targetCategory.symm, h.numericTerms.symm, h.categoryTerms.symm⟩

theorem isEmpty_eq (h : t.Reordered t') : t'.isEmpty = t.isEmpty := by
  unfold isEmpty
  rw [h.numericTerms.isEmpty_eq, h.categoryTerms.isEmpty_eq]

theorem cells (h : t.Reordered t') : (Compile.tableCells t).Perm (Compile.tableCells t') :=
  (h.numericTerms.map _).append (h.categoryTerms.map _)

theorem parameters (h : t.Reordered t') : (Compile.tableParameters t).Perm (Compile.tableParameters t') := by
  unfold Compile.tableParameters
  rw [h.intercept]
  exact (h.cells.map _).append_right _

theorem unclaimed (h : t.Reordered t') : t.declarations.unclaimed = t'.declarations.unclaimed := by
  have hcells : (t.declarations.cells.map (·.parameter)).Perm (t'.declarations.cells.map (·.parameter)) :=
    (h.cells.map _).map _
  rw [unclaimed_eq, unclaimed_eq]
  simp only [hcells.mem_iff]

end Reordered

end Spec.RegressionTable

namespace Compile

variable {d : Document}

theorem modeledTable_of_reordered {m : Spec.Regression} {tables : List RegressionTable}
    (h : List.Forall₂ RegressionTable.Reordered m.tables tables) {table rest : RegressionTable}
    (hm : modeledTable m = .ok (table, rest)) :
    ∃ table' rest', table.Reordered table' ∧ rest.Reordered rest' ∧
      modeledTable { m with tables } = .ok (table', rest') := by
  obtain ⟨htables, hempty, hintercept⟩ := modeledTable_eq_ok.mp hm
  rw [htables] at h
  obtain ⟨table', tables', htable, hone, rfl⟩ := List.forall₂_cons_left_iff.mp h
  obtain ⟨rest', tables', hrest, hnone, rfl⟩ := List.forall₂_cons_left_iff.mp hone
  obtain rfl := List.forall₂_nil_left_iff.mp hnone
  refine ⟨table', rest', htable, hrest, modeledTable_eq_ok.mpr ⟨rfl, ?_, ?_⟩⟩
  · rw [hrest.isEmpty_eq, hempty]
  · rw [hrest.intercept, hintercept]

theorem regressionParts_of_reordered {m : Spec.Regression} {tables : List RegressionTable}
    (h : List.Forall₂ RegressionTable.Reordered m.tables tables) {kind : LinearKind} {table : RegressionTable}
    {classes : Classes} (hparts : regressionParts d m = .ok (kind, table, classes)) :
    ∃ table', table.Reordered table' ∧ regressionParts d { m with tables } = .ok (kind, table', classes) := by
  obtain ⟨hfunction, hkind, rest, htables, hclasses⟩ := regressionParts_eq_ok.mp hparts
  obtain ⟨table', rest', htable, hrest, htables'⟩ := modeledTable_of_reordered h htables
  refine ⟨table', htable, regressionParts_eq_ok.mpr ⟨hfunction, hkind, rest', htables', ?_⟩⟩
  -- the classes are named by the tables, not by their terms
  unfold tableClasses at hclasses ⊢
  rw [htable.targetCategory, hrest.targetCategory]
  exact hclasses

theorem regression_of_reordered {m : Spec.Regression} {tables : List RegressionTable}
    (h : List.Forall₂ RegressionTable.Reordered m.tables tables) {s : Scorer}
    (hs : regression d m = .ok s) : regression d { m with tables } = .ok s := by
  obtain ⟨kind, table, classes, layout, v, hparts, hexponents, hlayout, hv, rfl⟩ := regression_eq_ok.mp hs
  obtain ⟨table', htable, hparts'⟩ := regressionParts_of_reordered h hparts
  obtain ⟨a⟩ := Layout.nonempty_arrangement hlayout
  have hbetas := Table.ofList_eq_of_perm htable.parameters a.parameters_nodup
  refine regression_eq_ok.mpr ⟨kind, table', classes, layout, v, hparts', ?_, ?_, hv, by rw [hbetas]⟩
  · rw [checkExponents_eq_ok] at hexponents ⊢
    exact fun t ht => hexponents t (htable.numericTerms.mem_iff.mpr ht)
  · exact Layout.arrange_of_perm (htable.parameters.map _) (htable.cells.map _) htable.unclaimed hlayout

/-! ## 4. Compiled models -/

/-- Neither compiler of linear models nor the layout depends on the order in which terms are listed: for a general
regression model these are factors, covariates, cells and coefficients, for a regression model the numeric and the
categorical terms of its tables, and for a layout its cells. A reordered model is accepted exactly when the model is,
and is the same scorer then. -/
theorem terms_reordered (d : Document) :
    (∀ (m : GeneralRegression) factors covariates predictorCells coefficientCells,
      m.factors.Perm factors → m.covariates.Perm covariates → m.predictorCells.Perm predictorCells →
      m.coefficientCells.Perm coefficientCells → ∀ s, generalRegression d m = .ok s ↔
        generalRegression d { m with factors, covariates, predictorCells, coefficientCells } = .ok s) ∧
    (∀ (m : Spec.Regression) tables, List.Forall₂ RegressionTable.Reordered m.tables tables →
      ∀ s, regression d m = .ok s ↔ regression d { m with tables } = .ok s) ∧
    ∀ parameters cells cells' scope, cells.Perm cells' →
      ∀ l, Layout.arrange ⟨parameters, cells⟩ scope = .ok l ↔
        Layout.arrange ⟨parameters, cells'⟩ scope = .ok l := by
  refine ⟨?_, ?_, fun parameters cells cells' scope h l => Layout.arrange_eq_ok_iff_of_perm h⟩
  · intro m factors covariates predictorCells coefficientCells hfactors hcovariates hpredictors hcoefficients s
    constructor
    · exact generalRegression_of_perm hfactors hcovariates hpredictors hcoefficients
    · exact generalRegression_of_perm hfactors.symm hcovariates.symm hpredictors.symm hcoefficients.symm
  · intro m tables h s
    have hback : List.Forall₂ RegressionTable.Reordered tables m.tables :=
      h.flip.imp fun _ _ ht => ht.symm
    exact ⟨regression_of_reordered h, regression_of_reordered (m := { m with tables }) hback⟩

/-! A regression on two numbers and the categories of a grade, with its terms in two orders. -/

def examDocument : Document where
  version := none
  dictionary := ⟨[.continuous "age" .double, .continuous "hours" .double,
    .categorical "grade" .string ["A", "B", "C"], .categorical "y" .integer ["0", "1"]]⟩
  transformations := ⟨[]⟩
  models := []

def examTable : RegressionTable where
  intercept := 1.0
  targetCategory := some "1"
  numericTerms := [⟨"hours", 1, 0.25⟩, ⟨"age", 1, 0.5⟩]
  categoryTerms := [⟨"grade", "B", 2.0⟩, ⟨"grade", "A", 3.0⟩]

def turnedExamTable : RegressionTable :=
  { examTable with
    numericTerms := [⟨"age", 1, 0.5⟩, ⟨"hours", 1, 0.25⟩]
    categoryTerms := [⟨"grade", "A", 3.0⟩, ⟨"grade", "B", 2.0⟩] }

def examRegression (table : RegressionTable) : Spec.Regression where
  name := none
  function := .classification
  normalization := .none
  schema := ⟨[.active "age", .active "hours", .active "grade", .target "y"]⟩
  transformations := ⟨[]⟩
  tables := [table, ⟨0.0, some "0", [], []⟩]

theorem terms_reordered_exam :
    (∃ s, generalRegression gradeDocument gradeGeneralRegression = .ok s ∧
      generalRegression gradeDocument
        { gradeGeneralRegression with
          predictorCells := [⟨some "B", "grade", "p2", none⟩, ⟨none, "age", "p1", none⟩]
          coefficientCells := [⟨some "1", "p1", 0.5, none⟩, ⟨some "1", "p0", 1.0, none⟩] } = .ok s) ∧
    (∃ s, regression examDocument (examRegression examTable) = .ok s ∧
      regression examDocument (examRegression turnedExamTable) = .ok s) ∧
    ∃ l, Layout.arrange Layout.gradeDeclarations Layout.gradeScope = .ok l ∧
      Layout.arrange { Layout.gradeDeclarations with cells := Layout.gradeDeclarations.cells.reverse }
        Layout.gradeScope = .ok l := by
  refine ⟨?_, ?_, ?_⟩
  · have hname : (generalRegression gradeDocument gradeGeneralRegression).toOption.map (·.name) =
        some none := by decide +kernel
    obtain ⟨s, hs, -⟩ := Outcome.exists_of_toOption_map hname
    refine ⟨s, hs, ((terms_reordered gradeDocument).1 gradeGeneralRegression ["grade"] ["age"] _ _ (.refl _)
      (.refl _) ?_ ?_ s).mp hs⟩
    · exact List.Perm.swap _ _ _
    · exact List.Perm.swap _ _ _
  · have hname : (regression examDocument (examRegression examTable)).toOption.map (·.name) =
        some none := by decide +kernel
    obtain ⟨s, hs, -⟩ := Outcome.exists_of_toOption_map hname
    have htable : examTable.Reordered turnedExamTable :=
      ⟨rfl, rfl, List.Perm.swap _ _ _, List.Perm.swap _ _ _⟩
    have hrest : (⟨0.0, some "0", [], []⟩ : RegressionTable).Reordered ⟨0.0, some "0", [], []⟩ :=
      ⟨rfl, rfl, .refl _, .refl _⟩
    exact ⟨s, hs, ((terms_reordered examDocument).2.1 (examRegression examTable) _
      (.cons htable (.cons hrest .nil)) s).mp hs⟩
  · have hslots : (Layout.arrange Layout.gradeDeclarations Layout.gradeScope).toOption.map Layout.slots =
        some [some "p4", some "p3", some "p2", none, some "p1", some "p0"] := by decide +kernel
    obtain ⟨l, hl, -⟩ := Outcome.exists_of_toOption_map hslots
    exact ⟨l, hl, ((terms_reordered gradeDocument).2.2 _ _ _ _ (List.reverse_perm _).symm l).mp hl⟩

end Compile

end Scoring
