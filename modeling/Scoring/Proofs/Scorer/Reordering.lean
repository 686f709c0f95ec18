import Scoring.Compile
import Scoring.Proofs.Field.Reordering
import Scoring.Proofs.Layout.Reordering

/-!
# Reordering — documents whose fields are listed in another order

A document lists data fields, derived fields and mining fields, and compilers see these lists only through look-ups.
Where no field hides another one of its list, the compiler of every family gives the same scorer for any order of the
lists, or fails for the same reason (`modelAt_reordered`). A local derived field still hides a global one: that is a
matter of which list it stands in, and not of its place there.
-/

namespace Scoring

open Spec (DataField DerivedField Document MiningField MiningSchema TransformationDictionary)

/-! ## 1. Documents in another order -/

namespace Spec

/-- Models that differ at most in the order of their mining fields and of their own derived fields. -/
inductive Model.Reordered : Model → Model → Prop
  | generalRegression {m : GeneralRegression} {schema : MiningSchema}
      {transformations : TransformationDictionary} (mining : m.schema.fields.Perm schema.fields)
      (derived : m.transformations.fields.Perm transformations.fields) :
      Reordered (.generalRegression m) (.generalRegression { m with schema, transformations })
  | regression {m : Regression} {schema : MiningSchema} {transformations : TransformationDictionary}
      (mining : m.schema.fields.Perm schema.fields)
      (derived : m.transformations.fields.Perm transformations.fields) :
      Reordered (.regression m) (.regression { m with schema, transformations })
  | tree {m : Tree} {schema : MiningSchema} {transformations : TransformationDictionary}
      (mining : m.schema.fields.Perm schema.fields)
      (derived : m.transformations.fields.Perm transformations.fields) :
      Reordered (.tree m) (.tree { m with schema, transformations })
  | naiveBayes {m : NaiveBayes} {schema : MiningSchema} {transformations : TransformationDictionary}
      (mining : m.schema.fields.Perm schema.fields)
      (derived : m.transformations.fields.Perm transformations.fields) :
      Reordered (.naiveBayes m) (.naiveBayes { m with schema, transformations })
  | other (family : OtherFamily) (content : Json) : Reordered (.other family content) (.other family content)

namespace Document

structure Distinct (d : Document) : Prop where
  dictionary : (d.dictionary.fields.map (·.name)).Nodup
  globals : (d.transformations.fields.map (·.name)).Nodup
  locals : ∀ m ∈ d.models, (m.localFields.map (·.name)).Nodup
  schemas : ∀ m ∈ d.models, ∀ schema ∈ m.schema?, schema.Distinct

/-- Documents with the same models, data fields, derived fields and mining fields, in whatever order the fields are
listed. -/
structure Reordered (d d' : Document) : Prop where
  dictionary : d.dictionary.fields.Perm d'.dictionary.fields
  globals : d.transformations.fields.Perm d'.transformations.fields
  models : List.Forall₂ Model.Reordered d.models d'.models

end Document

end Spec

namespace Compile

variable {d d' : Document}

/-! ## 2. Look-ups -/

theorem field?_reordered (hd : d.Distinct) (h : d.Reordered d') (name : String) :
    d'.dictionary.field? name = d.dictionary.field? name :=
  (find?_name_eq_of_perm h.dictionary hd.dictionary name).symm

section Models

variable {schema schema' : MiningSchema} {transformations transformations' : TransformationDictionary}

/-- The fields in sight of a model are found alike. -/
theorem scope_agrees (hd : d.Distinct) (h : d.Reordered d') (hschema : schema.Distinct)
    (hlocals : (transformations.fields.map (·.name)).Nodup) (mining : schema.fields.Perm schema'.fields)
    (derived : transformations.fields.Perm transformations'.fields) :
    (scope d schema transformations).Agrees (scope d' schema' transformations') where
  raw := field?_reordered hd h
  derived name := by
    unfold scope
    -- global and local fields are looked for one list after the other
    rw [Scope.derived?_append, Scope.derived?_append, ← Scope.derived?_eq_of_perm derived hlocals,
      ← Scope.derived?_eq_of_perm h.globals hd.globals]
  replacement raw := congrArg (·.bind (·.replacement)) (MiningSchema.field?_eq_of_perm mining hschema raw.name)

theorem targetField_reordered (hd : d.Distinct) (h : d.Reordered d') (hschema : schema.Distinct)
    (mining : schema.fields.Perm schema'.fields) : targetField d' schema' = targetField d schema := by
  unfold targetField
  rw [MiningSchema.target?_eq_of_perm mining hschema]
  simp only [field?_reordered hd h]

end Models

/-! ## 3. Compilers -/

section Families

variable {schema : MiningSchema} {transformations : TransformationDictionary}

/-- A compiler uses a document for its fields in sight and for the target field, and for nothing else. -/
theorem generalRegression_eq_of_agrees {m : Spec.GeneralRegression}
    (hscope : (scope d m.schema m.transformations).Agrees (scope d' schema transformations))
    (htarget : targetField d' schema = targetField d m.schema) :
    generalRegression d' { m with schema, transformations } = generalRegression d m := by
  unfold generalRegression
  simp only [Layout.arrange_eq_of_resolve hscope.resolve_eq, htarget]
  rfl

theorem regression_eq_of_agrees {m : Spec.Regression}
    (hscope : (scope d m.schema m.transformations).Agrees (scope d' schema transformations))
    (htarget : targetField d' schema = targetField d m.schema) :
    regression d' { m with schema, transformations } = regression d m := by
  have hparts : regressionParts d' { m with schema, transformations } = regressionParts d m := by
    unfold regressionParts tableClasses
    simp only [htarget]
    rfl
  unfold regression
  simp only [hparts, Layout.arrange_eq_of_resolve hscope.resolve_eq]

theorem tree_eq_of_agrees {m : Spec.Tree}
    (hscope : (scope d m.schema m.transformations).Agrees (scope d' schema transformations)) :
    tree d' { m with schema, transformations } = tree d m := by
  unfold tree
  simp only [hscope.ofNames_eq]

theorem naiveBayes_eq_of_agrees {m : Spec.NaiveBayes}
    (hscope : (scope d m.schema m.transformations).Agrees (scope d' schema transformations)) :
    naiveBayes d' { m with schema, transformations } = naiveBayes d m := by
  unfold naiveBayes
  simp only [hscope.ofNames_eq]
  rfl

end Families

theorem model_reordered (hd : d.Distinct) (h : d.Reordered d') {m m' : Spec.Model} (hm : m ∈ d.models)
    (hmm : m.Reordered m') : model d' m' = model d m := by
  have hlocals := hd.locals m hm
  have hschema := hd.schemas m hm
  cases hmm with
  | generalRegression mining derived =>
    exact generalRegression_eq_of_agrees (scope_agrees hd h (hschema _ rfl) hlocals mining derived)
      (targetField_reordered hd h (hschema _ rfl) mining)
  | regression mining derived =>
    exact regression_eq_of_agrees (scope_agrees hd h (hschema _ rfl) hlocals mining derived)
      (targetField_reordered hd h (hschema _ rfl) mining)
  | tree mining derived =>
    exact tree_eq_of_agrees (scope_agrees hd h (hschema _ rfl) hlocals mining derived)
  | naiveBayes mining derived =>
    exact naiveBayes_eq_of_agrees (scope_agrees hd h (hschema _ rfl) hlocals mining derived)
  | other family content => rfl

/-! ## 4. Documents -/

/-- Whatever the order in which a document lists its data fields, its global and local derived fields and the mining
fields of its models, compiling the model at an index gives the same scorer, or the same failure. -/
theorem modelAt_reordered {d d' : Document} (hd : d.Distinct) (h : d.Reordered d') (index : Nat) :
    modelAt d' index = modelAt d index := by
  have hlength := h.models.length_eq
  unfold modelAt
  cases hm : d.models[index]? with
  | none =>
    have hm' : d'.models[index]? = none := by
      rw [List.getElem?_eq_none_iff] at hm ⊢
      omega
    rw [hm', hlength]
  | some m =>
    obtain ⟨hlt, hget⟩ := List.getElem?_eq_some_iff.mp hm
    have hmm := (List.forall₂_iff_get.mp h.models).2 index hlt (hlength ▸ hlt)
    rw [List.getElem?_eq_getElem (hlength ▸ hlt)]
    simp only [List.get_eq_getElem, hget] at hmm
    exact model_reordered hd h (List.mem_of_getElem? hm) hmm

/-! A regression on two derived fields, one of them global and one hidden by a local field of the same name. -/

def yearsField (literal : String) : DerivedField :=
  .replacingMissing "years" "age" .continuous .double literal

def pointsField : DerivedField :=
  .replacingMissing "points" "score" .continuous .double "0"

def yearsRegression (mining : List Spec.MiningField) : Spec.Regression where
  name := none
  function := .classification
  normalization := .logit
  schema := ⟨mining⟩
  transformations := ⟨[yearsField "50"]⟩
  tables := [⟨1.0, some "1", [⟨"years", 1, 0.5⟩, ⟨"points", 1, 2.0⟩], []⟩, ⟨0.0, some "0", [], []⟩]

def yearsDocument : Document where
  version := none
  dictionary := ⟨[.continuous "age" .double, .continuous "score" .double,
    .categorical "y" .integer ["0", "1"]]⟩
  transformations := ⟨[yearsField "40", pointsField]⟩
  models := [.regression (yearsRegression
    [.active "age", (MiningField.active "score").withReplacement "7", .target "y"])]

def shuffledYears : Document where
  version := none
  dictionary := ⟨[.categorical "y" .integer ["0", "1"], .continuous "score" .double,
    .continuous "age" .double]⟩
  transformations := ⟨[pointsField, yearsField "40"]⟩
  models := [.regression (yearsRegression
    [(MiningField.active "score").withReplacement "7", .target "y", .active "age"])]

theorem modelAt_reordered_years :
    ∃ s, modelAt yearsDocument 0 = .ok s ∧ modelAt shuffledYears 0 = .ok s := by
  have hname : (modelAt yearsDocument 0).toOption.map (·.name) = some none := by decide +kernel
  obtain ⟨s, hs, -⟩ := Outcome.exists_of_toOption_map hname
  have hdistinct : yearsDocument.Distinct := by
    refine ⟨by decide, by decide, List.forall_mem_singleton.mpr (by decide), ?_⟩
    refine List.forall_mem_singleton.mpr fun schema hschema => ?_
    cases hschema
    exact ⟨by decide, by decide, by decide⟩
  have hreordered : yearsDocument.Reordered shuffledYears :=
    ⟨by decide, List.Perm.swap _ _ _, .cons (.regression (by decide) (.refl _)) .nil⟩
  exact ⟨s, hs, (modelAt_reordered hdistinct hreordered 0).trans hs⟩

end Compile

end Scoring
