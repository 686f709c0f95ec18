import Scoring.Proofs.Linear.Score

/-!
# Predictor — the kind of the field that a term is about

A term of a linear model is either a multiple of a number or the weight of a category, and the model's own lists say
which. Whether the field has numbers or categories is found out when it is resolved, possibly through derived fields.
A term without a category is accepted for a number only, and a term with one for a field that declares it; the
exception is a field of numbers with a single term, whose category nobody reads (`predictor_kinds`).
-/

namespace Scoring

open Spec (Document GeneralRegression RegressionTable)

/-! ## 1. Cells of a layout -/

def Field.IsNumber (f : Field) : Prop :=
  f.optype = .continuous ∧ f.dataType.isNumeric = true

/-- Categories are the same when their keys are. -/
def Field.Declares (f : Field) (category : String) : Prop :=
  f.optype = .categorical ∧ (Scalar.string category).key f.raw.dataType ∈ f.categoryKeys

def Declarations.Sole (d : Declarations) (field : String) : Prop :=
  (d.cells.filter (·.field == field)).length = 1

/-- A field of categories has to declare the one that the cell names; a field of numbers has to have no other cell,
and what category that one names is not looked at. -/
def Cell.Suits (d : Declarations) (c : Cell) (f : Field) : Prop :=
  (∃ v, c.category = some v ∧ f.Declares v) ∨ (f.IsNumber ∧ d.Sole c.field)

namespace Cell.Suits

variable {d : Declarations} {c : Cell} {f : Field}

/-- The field of a cell without a category holds numbers. -/
theorem isNumber (h : c.Suits d f) (hc : c.category = none) : f.IsNumber := by
  rcases h with ⟨v, hv, -⟩ | ⟨hnumber, -⟩
  · rw [hc] at hv
    cases hv
  · exact hnumber

theorem declares_or {v : String} (h : c.Suits d f) (hc : c.category = some v) :
    f.Declares v ∨ (f.IsNumber ∧ d.Sole c.field) := by
  refine h.imp_left fun ⟨w, hw, hdeclares⟩ => ?_
  rw [hc, Option.some.injEq] at hw
  exact hw ▸ hdeclares

end Cell.Suits

namespace Layout

/-- The fields of an accepted layout suit its cells. -/
theorem suits_of_arrange {d : Declarations} {s : Scope} {l : Layout} (h : arrange d s = .ok l)
    {c : Cell} (hc : c ∈ d.cells) : ∃ f, s.resolve c.field = .ok f ∧ c.Suits d f := by
  obtain ⟨a⟩ := nonempty_arrangement h
  have hname : c.field ∈ (cellsByField d.cells).names :=
    mem_names_cellsByField.mpr (List.mem_map_of_mem hc)
  obtain ⟨⟨field, cells⟩, he, rfl⟩ := List.mem_map.mp hname
  obtain ⟨b, -, f, hf, hspan, hslots⟩ := Outcome.exists_right_of_forall₂ a.ofFields he
  obtain rfl : cells = d.cells.filter (·.field == c.field) := eq_filter_of_mem_cellsByField he
  refine ⟨f, hf, ?_⟩
  rcases Span.ofField_eq_ok.mp hspan with ⟨hoptype, hnumeric, hs⟩ | ⟨hoptype, -, hk, hs⟩
  · rw [hs] at hslots
    obtain ⟨c', hcells, -⟩ := slotsOf_continuous hslots
    exact Or.inr ⟨⟨hoptype, hnumeric⟩, congrArg List.length hcells⟩
  · rw [hs] at hslots
    have hmem : c ∈ d.cells.filter (·.field == c.field) := List.mem_filter.mpr ⟨hc, by simp⟩
    obtain ⟨v, i, hv, hi, -⟩ := (slotsOf_categorical hk hslots).2 c hmem
    -- a category with a position has a declared key
    exact Or.inl ⟨v, hv, hoptype, List.mem_of_getElem? ((Span.position?_eq_some_iff hk).mp hi)⟩

end Layout

/-! ## 2. Terms of a model -/

theorem Spec.RegressionTable.mem_cells {t : RegressionTable} {c : Cell} :
    c ∈ t.declarations.cells ↔
      (∃ n ∈ t.numericTerms, Compile.numericCell n = c) ∨
        ∃ k ∈ t.categoryTerms, Compile.categoryCell k = c := by
  unfold declarations Compile.tableCells
  simp only [List.map_append, List.map_map, List.mem_append, List.mem_map, Function.comp_apply]

namespace Compile

/-- The fields behind the terms of an accepted model. A covariate or a numeric term has a field of numbers. A factor or
the term of a category has a field that declares the category, or else a field of numbers that has no other term: then
the category is not looked at, and the term is a multiple of the number. -/
theorem predictor_kinds (d : Document) :
    (∀ m s, generalRegression d m = .ok s → ∀ c ∈ m.predictorCells,
      ∃ f, (scope d m.schema m.transformations).resolve c.predictor = .ok f ∧
        ((c.predictor ∈ m.factors ∧ ∃ v, c.value = some v ∧
            (f.Declares v ∨ (f.IsNumber ∧ m.declarations.Sole c.predictor))) ∨
          (c.predictor ∉ m.factors ∧ c.predictor ∈ m.covariates ∧ f.IsNumber))) ∧
    (∀ m s, regression d m = .ok s → ∃ table rest, m.tables = [table, rest] ∧
      (∀ t ∈ table.numericTerms,
        ∃ f, (scope d m.schema m.transformations).resolve t.field = .ok f ∧ f.IsNumber) ∧
      ∀ t ∈ table.categoryTerms,
        ∃ f, (scope d m.schema m.transformations).resolve t.field = .ok f ∧
          (f.Declares t.value ∨ (f.IsNumber ∧ table.declarations.Sole t.field))) := by
  constructor
  · intro m s h c hc
    obtain ⟨cell, hcell, hread⟩ := exists_of_mem_predictorCells h hc
    obtain ⟨layout, betas, classes, v, hlayout, -⟩ := exists_of_generalRegression h
    obtain ⟨f, hf, hsuits⟩ := Layout.suits_of_arrange hlayout hcell
    rcases cellOf_eq_ok hread with ⟨hfactor, v, hv, rfl⟩ | ⟨hfactor, hcovariate, rfl⟩
    · exact ⟨f, hf, Or.inl ⟨hfactor, v, hv, hsuits.declares_or rfl⟩⟩
    · exact ⟨f, hf, Or.inr ⟨hfactor, hcovariate, hsuits.isNumber rfl⟩⟩
  · intro m s h
    obtain ⟨kind, table, rest, layout, classes, v, htables, hlayout, -⟩ := exists_of_regression h
    refine ⟨table, rest, htables, fun t ht => ?_, fun t ht => ?_⟩
    · have hcell := Spec.RegressionTable.mem_cells.mpr (.inl ⟨t, ht, rfl⟩)
      obtain ⟨f, hf, hsuits⟩ := Layout.suits_of_arrange hlayout hcell
      exact ⟨f, hf, hsuits.isNumber rfl⟩
    · have hcell := Spec.RegressionTable.mem_cells.mpr (.inr ⟨t, ht, rfl⟩)
      obtain ⟨f, hf, hsuits⟩ := Layout.suits_of_arrange hlayout hcell
      exact ⟨f, hf, hsuits.declares_or rfl⟩

theorem predictor_kinds_grade :
    (∃ s, generalRegression gradeDocument gradeGeneralRegression = .ok s ∧
      ∃ f, (scope gradeDocument gradeSchema ⟨[]⟩).resolve "age" = .ok f ∧ f.IsNumber) ∧
    ∃ s, regression gradeDocument gradeRegression = .ok s ∧
      ∃ f, (scope gradeDocument gradeSchema ⟨[]⟩).resolve "grade" = .ok f ∧ f.Declares "B" := by
  constructor
  · have hname : (generalRegression gradeDocument gradeGeneralRegression).toOption.map (·.name) =
        some none := by decide +kernel
    obtain ⟨s, hs, -⟩ := Outcome.exists_of_toOption_map hname
    obtain ⟨f, hf, ⟨hfactor, -⟩ | ⟨-, -, hnumber⟩⟩ :=
      (predictor_kinds gradeDocument).1 gradeGeneralRegression s hs _ List.mem_cons_self
    · exact absurd hfactor (by decide)
    · exact ⟨s, hs, f, hf, hnumber⟩
  · have hname : (regression gradeDocument gradeRegression).toOption.map (·.name) = some none := by
      decide +kernel
    obtain ⟨s, hs, -⟩ := Outcome.exists_of_toOption_map hname
    obtain ⟨table, rest, htables, -, hcategories⟩ :=
      (predictor_kinds gradeDocument).2 gradeRegression s hs
    cases htables
    obtain ⟨f, hf, hdeclares | ⟨⟨hoptype, -⟩, -⟩⟩ := hcategories ⟨"grade", "B", 2.0⟩ List.mem_cons_self
    · exact ⟨s, hs, f, hf, hdeclares⟩
    -- the grade is no number
    · have hgrade : ((scope gradeDocument gradeSchema ⟨[]⟩).resolve "grade").toOption.map (·.optype) =
          some .categorical := by decide +kernel
      have hresolve : (scope gradeDocument gradeSchema ⟨[]⟩).resolve "grade" = .ok f := hf
      rw [hresolve] at hgrade
      cases hoptype.symm.trans (Option.some.inj hgrade)

def ageRegression : Spec.Regression where
  name := none
  function := .classification
  normalization := .none
  schema := gradeSchema
  transformations := ⟨[]⟩
  tables := [⟨0.0, some "1", [], [⟨"age", "30", 0.5⟩]⟩, ⟨0.0, some "0", [], []⟩]

def marginParts? (s : Scorer) : Option (List SpanKind × List Float) :=
  match s.pipeline, s.classifier with
  | .vector v, .margin m => some (v.spans.map (·.kind), m.coefficients)
  | _, _ => none

/-- The term is accepted, and its coefficient is multiplied with the age, which declares no category. -/
theorem category_of_number :
    (regression gradeDocument ageRegression).toOption.bind marginParts? =
      some ([.continuous, .intercept], [0.5, 0.0]) ∧
    ¬ ∃ f, (scope gradeDocument gradeSchema ⟨[]⟩).resolve "age" = .ok f ∧ f.Declares "30" := by
  refine ⟨by decide +kernel, ?_⟩
  rintro ⟨f, hf, hoptype, -⟩
  have hage : ((scope gradeDocument gradeSchema ⟨[]⟩).resolve "age").toOption.map (·.optype) =
      some .continuous := by decide +kernel
  rw [hf] at hage
  cases hoptype.symm.trans (Option.some.inj hage)

end Compile

end Scoring
