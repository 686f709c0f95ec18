import Scoring.Compile
import Scoring.Proofs.Layout.Row
import Scoring.Proofs.Outcome
import Scoring.Proofs.Table
import Scoring.Proofs.Target

/-!
# Compile — what the compilers hand back

A compiler that succeeds has passed all of its checks, and its scorer is made from their results. One lemma for
each family says which results these are, so that nothing later has to open a compiler again.
-/

namespace Scoring

open Spec (Document GeneralRegression RegressionTable)

/-! ## 1. Declarations of a model -/

namespace Spec

/-- The parameters of a general regression model and their ties; only a factor is tied to a category. -/
def GeneralRegression.declarations (m : GeneralRegression) : Declarations where
  parameters := m.parameters.map (·.name)
  cells := m.predictorCells.map fun c =>
    ⟨c.predictor, if c.predictor ∈ m.factors then c.value else none, c.parameter⟩

def GeneralRegression.beta (m : GeneralRegression) (parameter : String) : Float :=
  ((m.coefficientCells.find? (·.parameter == parameter)).map (·.beta)).getD 0.0

def RegressionTable.declarations (t : RegressionTable) : Declarations where
  parameters := (Compile.tableParameters t).map (·.1)
  cells := (Compile.tableCells t).map (·.1)

def RegressionTable.beta (t : RegressionTable) (parameter : String) : Float :=
  (Table.lookup parameter (Compile.tableParameters t)).getD 0.0

/-- The parameters of a table are those of its cells, and the intercept. -/
theorem RegressionTable.parameters_eq (t : RegressionTable) :
    t.declarations.parameters = t.declarations.cells.map (·.parameter) ++ [Compile.interceptParameter] := by
  unfold declarations Compile.tableParameters
  simp only [List.map_append, List.map_map, List.map_cons, List.map_nil, Function.comp_def]

end Spec

/-! ## 2. General regression -/

namespace Compile

/-- A cell is read as the tie of a factor, which has to name a category, or as that of a covariate, whatever its
exponent. -/
theorem cellOf_eq_ok {m : GeneralRegression} {c : Spec.PredictorCell} {cell : Cell}
    (h : cellOf m c = .ok cell) :
    (c.predictor ∈ m.factors ∧ ∃ v, c.value = some v ∧ cell = ⟨c.predictor, some v, c.parameter⟩) ∨
      (c.predictor ∉ m.factors ∧ c.predictor ∈ m.covariates ∧
        cell = ⟨c.predictor, none, c.parameter⟩) := by
  unfold cellOf at h
  by_cases hf : c.predictor ∈ m.factors
  · rw [if_pos hf] at h
    cases hv : c.value with
    | none => simp [hv] at h
    | some category =>
      simp only [hv, Except.ok.injEq] at h
      exact Or.inl ⟨hf, category, rfl, h.symm⟩
  · rw [if_neg hf] at h
    split at h
    · rename_i hcovariate
      split at h
      · cases h
        exact Or.inr ⟨hf, hcovariate, rfl⟩
      · split at h
        · split at h
          · cases h
            exact Or.inr ⟨hf, hcovariate, rfl⟩
          · cases h
        · cases h
    · cases h

theorem eq_of_cellOf {m : GeneralRegression} {c : Spec.PredictorCell} {cell : Cell}
    (h : cellOf m c = .ok cell) :
    cell = ⟨c.predictor, if c.predictor ∈ m.factors then c.value else none, c.parameter⟩ := by
  rcases cellOf_eq_ok h with ⟨hf, v, hv, rfl⟩ | ⟨hf, -, rfl⟩
  · rw [if_pos hf, hv]
  · rw [if_neg hf]

/-- A coefficient is noted for a declared parameter that has none yet. -/
theorem addCoefficient_eq_ok {declared : List String} {betas betas' : Table Float}
    {c : Spec.CoefficientCell} :
    addCoefficient declared betas c = .ok betas' ↔
      c.targetCategory ≠ none ∧ c.parameter ∈ declared ∧ c.parameter ∉ betas.names ∧
        betas' = betas.insert c.parameter c.beta := by
  unfold addCoefficient
  simp only [Option.isNone_iff_eq_none, Table.contains_iff_mem_names]
  by_cases htarget : c.targetCategory = none
  · simp [htarget]
  · by_cases hdeclared : c.parameter ∈ declared
    · by_cases hnoted : c.parameter ∈ betas.names
      · simp [htarget, hdeclared, hnoted]
      · simp [htarget, hdeclared, hnoted, eq_comm]
    · simp [htarget, hdeclared]

/-- Each parameter has one coefficient at most, and the table of coefficients holds it. -/
theorem find?_of_foldlM_addCoefficient {declared : List String} {cs : List Spec.CoefficientCell}
    {t betas : Table Float} (h : cs.foldlM (addCoefficient declared) t = .ok betas) :
    (cs.map (·.parameter)).Nodup ∧ (∀ c ∈ cs, c.parameter ∉ t.names) ∧ ∀ p,
      betas.find? p = ((cs.find? (·.parameter == p)).map (·.beta)).or (t.find? p) := by
  -- the table grows along the list, so what it held before is part of the statement
  induction cs generalizing t with
  | nil =>
    simp only [List.foldlM_nil, pure, Except.pure, Except.ok.injEq] at h
    simp [h]
  | cons c rest ih =>
    rw [List.foldlM_cons, Outcome.bind_eq_ok] at h
    obtain ⟨t', hstep, hrest⟩ := h
    obtain ⟨-, -, hnew, rfl⟩ := addCoefficient_eq_ok.mp hstep
    obtain ⟨hnodup, hfresh, hfind⟩ := ih hrest
    simp only [Table.mem_names_insert, not_or] at hfresh
    refine ⟨?_, ?_, fun p => ?_⟩
    · rw [List.map_cons, List.nodup_cons]
      refine ⟨fun hmem => ?_, hnodup⟩
      obtain ⟨c', hc', heq⟩ := List.mem_map.mp hmem
      exact (hfresh c' hc').1 heq
    · intro c' hc'
      rcases List.mem_cons.mp hc' with rfl | hc'
      · exact hnew
      · exact (hfresh c' hc').2
    · rw [hfind, Table.find?_insert]
      by_cases hp : c.parameter = p
      -- no later coefficient is that of this parameter
      · have hnone : rest.find? (·.parameter == p) = none := by
          refine List.find?_eq_none.mpr fun c' hc' => ?_
          rw [beq_iff_eq, ← hp]
          exact (hfresh c' hc').1
        simp [hp, hnone]
      · simp [hp, Ne.symm hp]

/-- The compiler succeeds exactly when each of its steps does, and hands back what is made of their results. -/
theorem generalRegression_eq_ok {d : Document} {m : GeneralRegression} {s : Scorer} :
    generalRegression d m = .ok s ↔
      requireClassification m.function "GeneralRegressionModel" = .ok () ∧ isLogistic m = true ∧
      ∃ cells layout betas target classes v,
        m.predictorCells.mapM (cellOf m) = .ok cells ∧
        Layout.arrange ⟨m.declarations.parameters, cells⟩ (scope d m.schema m.transformations) = .ok layout ∧
        m.coefficientCells.foldlM (addCoefficient m.declarations.parameters) Table.empty = .ok betas ∧
        targetField d m.schema = .ok target ∧
        Classes.ofCategories (m.coefficientCells.filterMap (·.targetCategory)) target = .ok classes ∧
        Vectorizer.ofSpans layout.spans = .ok v ∧
        s = ⟨m.name, .vector v,
          .logistic ⟨layout.slots.coefficients betas, 0.0, classes, some layout.slots⟩⟩ := by
  unfold generalRegression
  cases hlogistic : isLogistic m with
  | false => simp [Outcome.bind_eq_ok]
  | true =>
    simp only [Bool.not_true, Bool.false_eq_true, if_false, Outcome.bind_eq_ok, Except.ok.injEq]
    constructor
    · rintro ⟨⟨⟩, hfunction, cells, hcells, layout, hlayout, betas, hbetas, target, htarget, classes, hclasses,
        v, hv, hs⟩
      exact ⟨hfunction, trivial, cells, layout, betas, target, classes, v, hcells, hlayout, hbetas, htarget,
        hclasses, hv, hs.symm⟩
    · rintro ⟨hfunction, -, cells, layout, betas, target, classes, v, hcells, hlayout, hbetas, htarget,
        hclasses, hv, hs⟩
      exact ⟨(), hfunction, cells, hcells, layout, hlayout, betas, hbetas, target, htarget, classes, hclasses,
        v, hv, hs.symm⟩

theorem exists_of_generalRegression {d : Document} {m : GeneralRegression} {s : Scorer}
    (h : generalRegression d m = .ok s) :
    ∃ layout betas classes v,
      Layout.arrange m.declarations (scope d m.schema m.transformations) = .ok layout ∧
      m.coefficientCells.foldlM (addCoefficient m.declarations.parameters) Table.empty = .ok betas ∧
      v.spans = layout.spans ∧
      s = ⟨m.name, .vector v,
        .logistic ⟨layout.slots.coefficients betas, 0.0, classes, some layout.slots⟩⟩ := by
  obtain ⟨-, -, cells, layout, betas, target, classes, v, hcells, hlayout, hbetas, -, -, hv, hs⟩ :=
    generalRegression_eq_ok.mp h
  -- the cells are read one by one, so they are the declared ones in their order
  rw [Outcome.mapM_eq_ok] at hcells
  have heq := Outcome.eq_map_of_forall₂ (hcells.imp fun _ _ hc => eq_of_cellOf hc)
  subst heq
  exact ⟨layout, betas, classes, v, hlayout, hbetas, Vectorizer.spans_of_ofSpans hv, hs⟩

/-- The classes are found on the target field, from the categories that the coefficients name. -/
theorem classes_of_generalRegression {d : Document} {m : GeneralRegression} {s : Scorer}
    (h : generalRegression d m = .ok s) : ∃ l target,
      s.classifier = .logistic l ∧ targetField d m.schema = .ok target ∧
        Classes.ofCategories (m.coefficientCells.filterMap (·.targetCategory)) target = .ok l.classes := by
  obtain ⟨-, -, cells, layout, betas, target, classes, v, -, -, -, htarget, hclasses, -, rfl⟩ :=
    generalRegression_eq_ok.mp h
  exact ⟨_, target, rfl, htarget, hclasses⟩

/-- Every coefficient names a category. -/
theorem targetCategory_of_mem {d : Document} {m : GeneralRegression} {s : Scorer}
    (h : generalRegression d m = .ok s) {c : Spec.CoefficientCell} (hc : c ∈ m.coefficientCells) :
    ∃ category, c.targetCategory = some category := by
  obtain ⟨-, -, cells, layout, betas, target, classes, v, -, -, hbetas, -⟩ := generalRegression_eq_ok.mp h
  obtain ⟨before, after, hstep⟩ := Outcome.exists_of_foldlM_eq_ok hbetas hc
  exact Option.ne_none_iff_exists'.mp (addCoefficient_eq_ok.mp hstep).1

/-- Every cell of an accepted model has been read. -/
theorem exists_of_mem_predictorCells {d : Document} {m : GeneralRegression} {s : Scorer}
    (h : generalRegression d m = .ok s) {c : Spec.PredictorCell} (hc : c ∈ m.predictorCells) :
    ∃ cell ∈ m.declarations.cells, cellOf m c = .ok cell := by
  obtain ⟨-, -, cells, layout, betas, target, classes, v, hcells, -⟩ := generalRegression_eq_ok.mp h
  rw [Outcome.mapM_eq_ok] at hcells
  obtain ⟨cell, -, hcell⟩ := Outcome.exists_right_of_forall₂ hcells hc
  exact ⟨cell, eq_of_cellOf hcell ▸ List.mem_map_of_mem hc, hcell⟩

/-! ## 3. Regression -/

theorem classifier_eq (k : LinearKind) (m : LinearModel) :
    k.classifier m = .logistic m ∨ k.classifier m = .margin m := by
  cases k
  · exact Or.inl rfl
  · exact Or.inr rfl

/-- What the tables of a regression model say about its classes: the first one names the positive class and the second
one, if it names any, the other class of the target field. -/
structure TableClasses (d : Document) (m : Spec.Regression) (table rest : RegressionTable)
    (target : Spec.DataField) (classes : Classes) : Prop where
  targetField_eq : targetField d m.schema = .ok target
  ofCategories_eq : Classes.ofCategories [classes.positive] target = .ok classes
  positive_eq : table.targetCategory = some classes.positive
  key_negative : ∀ v, rest.targetCategory = some v → Classes.key target v = Classes.key target classes.negative

theorem exists_of_tableClasses {d : Document} {m : Spec.Regression} {table rest : RegressionTable}
    {classes : Classes} (h : tableClasses d m table rest = .ok classes) :
    ∃ target, TableClasses d m table rest target classes := by
  unfold tableClasses at h
  cases hpositive : table.targetCategory with
  | none =>
    simp only [hpositive, Outcome.error_bind] at h
    cases h
  | some positive =>
    simp only [hpositive, Outcome.ok_bind, Outcome.bind_eq_ok] at h
    obtain ⟨target, htarget, h⟩ := h
    by_cases hshared : rest.targetCategory = some positive
    · rw [if_pos hshared] at h
      cases h
    · rw [if_neg hshared, Outcome.bind_eq_ok] at h
      obtain ⟨classes', hclasses, h⟩ := h
      -- a second table may confirm the other class, and changes nothing
      have hconfirmed : classes' = classes ∧ ∀ v, rest.targetCategory = some v →
          Classes.key target v = Classes.key target classes'.negative := by
        split at h
        · rename_i hnone
          refine ⟨Except.ok.inj h, fun v hv => ?_⟩
          rw [hnone] at hv
          cases hv
        · rename_i negative hnegative
          split at h
          · rename_i hkey
            refine ⟨Except.ok.inj h, fun v hv => ?_⟩
            rw [hnegative, Option.some.injEq] at hv
            exact hv ▸ hkey
          · cases h
      obtain ⟨rfl, hkey⟩ := hconfirmed
      have hmodeled : positive = classes'.positive :=
        (Classes.ofCategories_eq_ok.mp hclasses).1.2 positive List.mem_cons_self
      exact ⟨target, htarget, hmodeled ▸ hclasses, hmodeled ▸ hpositive, hkey⟩

/-- Two tables are there, and the second one is empty. -/
theorem modeledTable_eq_ok {m : Spec.Regression} {table rest : RegressionTable} :
    modeledTable m = .ok (table, rest) ↔
      m.tables = [table, rest] ∧ rest.isEmpty = true ∧ (rest.intercept != 0.0) = false := by
  unfold modeledTable
  split
  · rename_i table' rest' htables
    simp only [htables, List.cons.injEq, and_true]
    split
    · rename_i hterms
      simp only [reduceCtorEq, false_iff]
      rintro ⟨⟨-, rfl⟩, hempty, hintercept⟩
      rw [hempty, hintercept] at hterms
      cases hterms
    · rename_i hterms
      rw [Bool.not_eq_true, Bool.or_eq_false_iff, Bool.not_eq_false'] at hterms
      simp only [Except.ok.injEq, Prod.mk.injEq]
      constructor
      · rintro ⟨rfl, rfl⟩
        exact ⟨⟨rfl, rfl⟩, hterms⟩
      · rintro ⟨heq, -⟩
        exact heq
  · rename_i htables
    simp only [reduceCtorEq, false_iff]
    rintro ⟨heq, -⟩
    exact htables _ _ heq

theorem regressionParts_eq_ok {d : Document} {m : Spec.Regression} {kind : LinearKind}
    {table : RegressionTable} {classes : Classes} :
    regressionParts d m = .ok (kind, table, classes) ↔
      requireClassification m.function "RegressionModel" = .ok () ∧ linearKind m = .ok kind ∧
      ∃ rest, modeledTable m = .ok (table, rest) ∧ tableClasses d m table rest = .ok classes := by
  unfold regressionParts
  simp only [Outcome.bind_eq_ok]
  constructor
  · rintro ⟨⟨⟩, hfunction, kind', hkind, ⟨table', rest⟩, htables, classes', hclasses, hparts⟩
    cases hparts
    exact ⟨hfunction, hkind, rest, htables, hclasses⟩
  · rintro ⟨hfunction, hkind, rest, htables, hclasses⟩
    exact ⟨(), hfunction, kind, hkind, (table, rest), htables, classes, hclasses, rfl⟩

/-- The parts are the first of two tables and the classes that the tables name. -/
theorem steps_of_regressionParts {d : Document} {m : Spec.Regression} {kind : LinearKind}
    {table : RegressionTable} {classes : Classes} (h : regressionParts d m = .ok (kind, table, classes)) :
    ∃ rest target, m.tables = [table, rest] ∧ TableClasses d m table rest target classes := by
  obtain ⟨-, -, rest, htables, hclasses⟩ := regressionParts_eq_ok.mp h
  obtain ⟨target, hnamed⟩ := exists_of_tableClasses hclasses
  exact ⟨rest, target, (modeledTable_eq_ok.mp htables).1, hnamed⟩

theorem checkExponents_eq_ok {table : RegressionTable} :
    checkExponents table = .ok () ↔ ∀ t ∈ table.numericTerms, t.exponent = 1 := by
  unfold checkExponents
  split
  · rename_i t ht
    have hexponent := List.find?_some ht
    simp only [reduceCtorEq, false_iff, not_forall]
    exact ⟨t, List.mem_of_find?_eq_some ht, by simpa using hexponent⟩
  · rename_i hnone
    simpa using hnone

/-- The compiler succeeds exactly when each of its steps does, and hands back what is made of their results. -/
theorem regression_eq_ok {d : Document} {m : Spec.Regression} {s : Scorer} :
    regression d m = .ok s ↔
      ∃ kind table classes layout v, regressionParts d m = .ok (kind, table, classes) ∧
        checkExponents table = .ok () ∧
        Layout.arrange table.declarations (scope d m.schema m.transformations) = .ok layout ∧
        Vectorizer.ofSpans layout.spans = .ok v ∧
        s = ⟨m.name, .vector v, LinearKind.classifier kind
          ⟨layout.slots.coefficients (Table.ofList (tableParameters table)), 0.0, classes,
            some layout.slots⟩⟩ := by
  unfold regression
  simp only [Outcome.bind_eq_ok, Except.ok.injEq]
  constructor
  · rintro ⟨⟨kind, table, classes⟩, hparts, ⟨⟩, hexponents, layout, hlayout, v, hv, hs⟩
    exact ⟨kind, table, classes, layout, v, hparts, hexponents, hlayout, hv, hs.symm⟩
  · rintro ⟨kind, table, classes, layout, v, hparts, hexponents, hlayout, hv, hs⟩
    exact ⟨(kind, table, classes), hparts, (), hexponents, layout, hlayout, v, hv, hs.symm⟩

theorem exists_of_regression {d : Document} {m : Spec.Regression} {s : Scorer}
    (h : regression d m = .ok s) :
    ∃ kind table rest layout classes v, m.tables = [table, rest] ∧
      Layout.arrange table.declarations (scope d m.schema m.transformations) = .ok layout ∧
      v.spans = layout.spans ∧
      s = ⟨m.name, .vector v, LinearKind.classifier kind
        ⟨layout.slots.coefficients (Table.ofList (tableParameters table)), 0.0, classes,
          some layout.slots⟩⟩ := by
  obtain ⟨kind, table, classes, layout, v, hparts, -, hlayout, hv, hs⟩ := regression_eq_ok.mp h
  obtain ⟨rest, target, htables, -⟩ := steps_of_regressionParts hparts
  exact ⟨kind, table, rest, layout, classes, v, htables, hlayout, Vectorizer.spans_of_ofSpans hv, hs⟩

theorem classes_of_regression {d : Document} {m : Spec.Regression} {s : Scorer}
    (h : regression d m = .ok s) : ∃ kind l table rest target, s.classifier = LinearKind.classifier kind l ∧
      m.tables = [table, rest] ∧ TableClasses d m table rest target l.classes := by
  obtain ⟨kind, table, classes, layout, v, hparts, -, -, -, rfl⟩ := regression_eq_ok.mp h
  obtain ⟨rest, target, htables, hclasses⟩ := steps_of_regressionParts hparts
  exact ⟨kind, _, table, rest, target, rfl, htables, hclasses⟩

/-- A table without categories is all that the other compiler asks for: nothing has to be resolved. -/
theorem precomputedRegression_eq_ok {d : Document} {m : Spec.Regression} {s : Scorer} :
    precomputedRegression d m = .ok s ↔
      ∃ kind table classes, regressionParts d m = .ok (kind, table, classes) ∧ table.categoryTerms = [] ∧
        checkExponents table = .ok () ∧
        s = ⟨m.name, .precomputed table.numericTerms.length, LinearKind.classifier kind
          ⟨table.numericTerms.map (·.coefficient), table.intercept, classes, none⟩⟩ := by
  unfold precomputedRegression
  rw [Outcome.bind_eq_ok]
  constructor
  · rintro ⟨⟨kind, table, classes⟩, hparts, h⟩
    simp only at h
    split at h
    · cases h
    · rename_i hcategories
      rw [Outcome.bind_eq_ok] at h
      obtain ⟨⟨⟩, hexponents, hs⟩ := h
      rw [List.length_map] at hs
      cases hs
      exact ⟨kind, table, classes, hparts, by simpa using hcategories, hexponents, rfl⟩
  · rintro ⟨kind, table, classes, hparts, hcategories, hexponents, rfl⟩
    refine ⟨(kind, table, classes), hparts, ?_⟩
    simp only [hcategories, hexponents, List.isEmpty_nil, Bool.not_true, Bool.false_eq_true, if_false,
      Outcome.ok_bind, List.length_map]

theorem exists_of_precomputedRegression {d : Document} {m : Spec.Regression} {s : Scorer}
    (h : precomputedRegression d m = .ok s) :
    ∃ kind coefficients intercept classes, s = ⟨m.name, .precomputed coefficients.length,
      LinearKind.classifier kind ⟨coefficients, intercept, classes, none⟩⟩ := by
  obtain ⟨kind, table, classes, -, -, -, hs⟩ := precomputedRegression_eq_ok.mp h
  refine ⟨kind, table.numericTerms.map (·.coefficient), table.intercept, classes, ?_⟩
  rw [hs, List.length_map]

theorem classes_of_precomputedRegression {d : Document} {m : Spec.Regression} {s : Scorer}
    (h : precomputedRegression d m = .ok s) : ∃ kind l table rest target,
      s.classifier = LinearKind.classifier kind l ∧ m.tables = [table, rest] ∧
        TableClasses d m table rest target l.classes := by
  obtain ⟨kind, table, classes, hparts, -, -, rfl⟩ := precomputedRegression_eq_ok.mp h
  obtain ⟨rest, target, htables, hclasses⟩ := steps_of_regressionParts hparts
  exact ⟨kind, _, table, rest, target, rfl, htables, hclasses⟩

/-! ## 4. Trees and naive Bayes -/

theorem exists_of_tree {d : Document} {m : Spec.Tree} {s : Scorer} (h : tree d m = .ok s) :
    ∃ intake t, Intake.ofNames (scope d m.schema m.transformations) m.root.testedFields = .ok intake ∧
      DecisionTree.ofRoot m.root intake m.strategy = .ok t ∧ s = ⟨m.name, .fields intake, .tree t⟩ := by
  unfold tree at h
  simp only [Outcome.bind_eq_ok] at h
  obtain ⟨_, -, intake, hintake, t, ht, hs⟩ := h
  cases hs
  exact ⟨intake, t, hintake, ht, rfl⟩

theorem exists_of_naiveBayes {d : Document} {m : Spec.NaiveBayes} {s : Scorer}
    (h : naiveBayes d m = .ok s) :
    ∃ intake bayes,
      Intake.ofNames (scope d m.schema m.transformations) (m.inputs.map (·.field)) = .ok intake ∧
      NaiveBayes.ofSpec m intake = .ok bayes ∧ s = ⟨m.name, .fields intake, .bayes bayes⟩ := by
  unfold naiveBayes at h
  simp only [Outcome.bind_eq_ok] at h
  obtain ⟨_, -, intake, hintake, bayes, hbayes, hs⟩ := h
  cases hs
  exact ⟨intake, bayes, hintake, hbayes, rfl⟩

end Compile

end Scoring
