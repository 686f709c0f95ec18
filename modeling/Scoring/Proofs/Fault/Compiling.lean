import Scoring.Proofs.Compile
import Scoring.Proofs.Layout.Failures
import Scoring.Proofs.Tree.Preorder

/-!
# Compiling — what compiling can fail with

Compiling sees the document and nothing else, so whatever goes wrong is the document's fault: it asks for something that
is not implemented, or contradicts itself. Every compiler is followed down to the helpers it shares with the others.
-/

namespace Scoring

open Outcome (FailsOnly)
open Spec (Document Predicate RegressionTable)

/-! ## 1. Kinds of compile-time failures -/

def FaultKind.compileTime : List FaultKind :=
  [.unsupported, .malformed]

open FaultKind (compileTime)

namespace Outcome.FailsOnly

variable {α : Type}

theorem unsupported (cause : Unsupported) :
    FailsOnly compileTime (.error (.unsupported cause) : Outcome α) :=
  .error List.mem_cons_self

theorem malformed (cause : Malformed) : FailsOnly compileTime (.error (.malformed cause) : Outcome α) :=
  .error (List.mem_cons_of_mem _ List.mem_cons_self)

end Outcome.FailsOnly

theorem Fault.kind_of_ofLayout {e : Fault} (h : e.ofLayout = true) : e.kind ∈ compileTime := by
  cases e with
  | unsupported cause => exact List.mem_cons_self
  | malformed cause => exact List.mem_cons_of_mem _ List.mem_cons_self
  | mismatch cause => cases h
  | missingFile => cases h
  | unreadable => cases h

/-! ## 2. Fields, layouts and classes -/

theorem Scalar.failsOnly_parse (literal : String) (type : Spec.DataType) :
    FailsOnly compileTime (parse literal type) := by
  intro e h
  exact Fault.kind_of_ofLayout (Layout.ofLayout_of_ofField (ofField_of_parse h))

theorem Scope.failsOnly_resolve (s : Scope) (name : String) :
    FailsOnly compileTime (s.resolve name) := by
  intro e h
  exact Fault.kind_of_ofLayout (Layout.ofLayout_of_ofField (ofField_of_resolve h))

theorem Layout.failsOnly_arrange (d : Declarations) (s : Scope) :
    FailsOnly compileTime (arrange d s) := by
  intro e h
  exact Fault.kind_of_ofLayout (ofLayout_of_arrange h)

theorem Vectorizer.failsOnly_ofSpans (spans : List Span) : FailsOnly compileTime (ofSpans spans) := by
  unfold ofSpans
  split
  · exact .ok _
  · exact .malformed _

theorem Intake.failsOnly_ofNames (s : Scope) (names : List String) :
    FailsOnly compileTime (ofNames s names) :=
  (FailsOnly.mapM s.failsOnly_resolve names).map _

namespace Classes

theorem failsOnly_modeled (categories : List String) (target : Spec.DataField) :
    FailsOnly compileTime (modeled categories target) := by
  unfold modeled
  split
  · exact .ok _
  · exact .malformed _
  · exact .unsupported _

theorem failsOnly_ofCategories (categories : List String) (target : Spec.DataField) :
    FailsOnly compileTime (ofCategories categories target) := by
  refine (failsOnly_modeled categories target).bind fun positive => ?_
  simp only
  split
  · exact .unsupported _
  · split
    · exact .ok _
    · exact .malformed _
    · exact .malformed _

end Classes

/-! ## 3. Conditions and trees -/

namespace Condition

theorem failsOnly_fieldType (i : Intake) (field : String) : FailsOnly compileTime (fieldType i field) := by
  unfold fieldType
  split
  · exact .ok _
  · exact .malformed _

theorem failsOnly_ofLiteral (field : String) (type : Spec.DataType) (operator : Spec.SimpleOperator)
    (comparison : Comparison) (value : Option String) :
    FailsOnly compileTime (ofLiteral field type operator comparison value) := by
  unfold ofLiteral
  split
  · exact .malformed _
  · split
    · exact .unsupported _
    · refine (Scalar.failsOnly_parse _ _).bind fun operand => ?_
      split
      · exact .ok _
      · exact .malformed _

theorem failsOnly_ofSimple (field : String) (type : Spec.DataType) (operator : Spec.SimpleOperator)
    (value : Option String) : FailsOnly compileTime (ofSimple field type operator value) := by
  cases operator with
  | isMissing | isNotMissing => exact .ok _
  | equal | notEqual | lessThan | lessOrEqual | greaterThan | greaterOrEqual =>
    exact failsOnly_ofLiteral field type _ _ value

mutual

theorem failsOnly_ofPredicate (i : Intake) (p : Predicate) :
    FailsOnly compileTime (ofPredicate i p) := by
  cases p with
  | always | never =>
    rw [ofPredicate]
    exact .ok _
  | simple field operator value =>
    rw [ofPredicate]
    exact (failsOnly_fieldType i field).bind fun type => failsOnly_ofSimple field type operator value
  | set field operator values =>
    rw [ofPredicate]
    exact (failsOnly_fieldType i field).map _
  | compound operator parts =>
    rw [ofPredicate]
    exact (failsOnly_ofPredicates i parts).map _

theorem failsOnly_ofPredicates (i : Intake) (ps : List Predicate) :
    FailsOnly compileTime (ofPredicates i ps) := by
  cases ps with
  | nil =>
    rw [ofPredicates]
    exact .ok _
  | cons p rest =>
    rw [ofPredicates]
    exact (failsOnly_ofPredicate i p).bind fun c => (failsOnly_ofPredicates i rest).map _

end

end Condition

namespace DecisionTree

theorem failsOnly_probabilities (id : Option String) (entries : List Spec.ScoreEntry) :
    FailsOnly compileTime (probabilities id entries) := by
  unfold probabilities
  split
  · exact .ok _
  · split
    · exact .ok _
    · simp only
      split
      · exact .malformed _
      · exact .ok _

theorem failsOnly_branch (i : Intake) (place : Nat) (n : Spec.Node) :
    FailsOnly compileTime (branch i place n) := by
  obtain ⟨id, score, count, predicate, children, entries⟩ := n
  refine (failsOnly_probabilities id entries).bind fun distribution => ?_
  simp only
  split
  · exact .malformed _
  · exact (Condition.failsOnly_ofPredicate i predicate).map _

theorem failsOnly_ofRoot (root : Spec.Node) (i : Intake) (strategy : Spec.NoTrueChildStrategy) :
    FailsOnly compileTime (ofRoot root i strategy) := by
  intro e h
  obtain ⟨m, -, place, hbranch⟩ := exists_of_ofRoot_eq_error h
  exact failsOnly_branch i place m e hbranch

end DecisionTree

/-! ## 4. Naive Bayes -/

namespace NaiveBayes

variable (classes : List String) (input : String)

theorem failsOnly_placeOf (value : String) : FailsOnly compileTime (placeOf classes input value) := by
  unfold placeOf
  split
  · exact .ok _
  · exact .malformed _

theorem failsOnly_addCount (row : List Float) (c : Spec.ClassCount) :
    FailsOnly compileTime (addCount classes input row c) :=
  (failsOnly_placeOf classes input c.value).map _

theorem failsOnly_addPair (key : String → String) (counts : Table (List Float)) (p : Spec.PairCounts) :
    FailsOnly compileTime (addPair classes input key counts p) :=
  (FailsOnly.foldlM (failsOnly_addCount classes input) p.counts _).map _

theorem failsOnly_addStatistic (row : List (Option (Float × Float))) (s : Spec.ClassDistribution) :
    FailsOnly compileTime (addStatistic classes input row s) := by
  refine (failsOnly_placeOf classes input s.value).bind fun k => ?_
  split
  · split
    · exact .malformed _
    · exact .ok _
  · exact .unsupported _

variable (threshold : Float) (f : Field) (b : Spec.BayesInput)

theorem failsOnly_ofPairCounts : FailsOnly compileTime (ofPairCounts classes threshold f b) := by
  refine (FailsOnly.foldlM (failsOnly_addPair classes b.field _) b.pairCounts _).bind fun counts => ?_
  simp only
  split
  · exact .malformed _
  · exact .ok _

theorem failsOnly_ofStatistics : FailsOnly compileTime (ofStatistics classes f b) := by
  refine (FailsOnly.foldlM (failsOnly_addStatistic classes b.field) b.statistics _).bind fun row => ?_
  split
  · exact .ok _
  · exact .malformed _

theorem failsOnly_ofInput (i : Intake) : FailsOnly compileTime (ofInput classes threshold i b) := by
  unfold ofInput
  split
  · exact .malformed _
  · split
    · exact failsOnly_ofPairCounts classes threshold _ b
    · split
      · exact failsOnly_ofStatistics classes _ b
      · exact .malformed _

theorem failsOnly_ofSpec (m : Spec.NaiveBayes) (i : Intake) : FailsOnly compileTime (ofSpec m i) := by
  unfold ofSpec
  simp only
  split
  · exact .malformed _
  · split
    · exact .malformed _
    · split
      · exact .malformed _
      · exact (FailsOnly.mapM (fun b => failsOnly_ofInput _ m.threshold b i) m.inputs).map _

end NaiveBayes

/-! ## 5. Compilers -/

namespace Compile

variable (d : Document)

theorem failsOnly_requireClassification (function : Spec.MiningFunction) (family : String) :
    FailsOnly compileTime (requireClassification function family) := by
  unfold requireClassification
  split
  · exact .ok _
  · exact .unsupported _

theorem failsOnly_targetField (schema : Spec.MiningSchema) :
    FailsOnly compileTime (targetField d schema) := by
  unfold targetField
  split
  · exact .malformed _
  · split
    · exact .ok _
    · exact .malformed _

theorem failsOnly_cellOf (m : Spec.GeneralRegression) (c : Spec.PredictorCell) :
    FailsOnly compileTime (cellOf m c) := by
  unfold cellOf
  split
  · split
    · exact .ok _
    · exact .malformed _
  · split
    -- what a covariate is raised to has to be a number, and that number one
    · split
      · exact .ok _
      · split
        · split
          · exact .ok _
          · exact .unsupported _
        · exact .unsupported _
    · exact .malformed _

theorem failsOnly_addCoefficient (declared : List String) (betas : Table Float)
    (c : Spec.CoefficientCell) : FailsOnly compileTime (addCoefficient declared betas c) := by
  unfold addCoefficient
  split
  · exact .malformed _
  · split
    · exact .malformed _
    · split
      · exact .unsupported _
      · exact .ok _

theorem failsOnly_generalRegression (m : Spec.GeneralRegression) :
    FailsOnly compileTime (generalRegression d m) := by
  refine (failsOnly_requireClassification m.function _).bind fun _ => ?_
  simp only
  split
  · exact .unsupported _
  · refine (FailsOnly.mapM (failsOnly_cellOf m) m.predictorCells).bind fun cells => ?_
    refine (Layout.failsOnly_arrange _ _).bind fun layout => ?_
    refine (FailsOnly.foldlM (failsOnly_addCoefficient _) m.coefficientCells _).bind fun betas => ?_
    refine (failsOnly_targetField d m.schema).bind fun target => ?_
    refine (Classes.failsOnly_ofCategories _ target).bind fun classes => ?_
    exact (Vectorizer.failsOnly_ofSpans layout.spans).map _

theorem failsOnly_linearKind (m : Spec.Regression) : FailsOnly compileTime (linearKind m) := by
  unfold linearKind
  split
  · exact .ok _
  · exact .ok _
  · exact .unsupported _

theorem failsOnly_modeledTable (m : Spec.Regression) : FailsOnly compileTime (modeledTable m) := by
  unfold modeledTable
  split
  · split
    · exact .unsupported _
    · exact .ok _
  · exact .unsupported _

theorem failsOnly_tableClasses (m : Spec.Regression) (table rest : RegressionTable) :
    FailsOnly compileTime (tableClasses d m table rest) := by
  unfold tableClasses
  simp only
  split
  · refine (failsOnly_targetField d m.schema).bind fun target => ?_
    split
    · exact .malformed _
    · refine (Classes.failsOnly_ofCategories _ target).bind fun classes => ?_
      -- the second table need not name a class, but if it does it is the other one
      split
      · exact .ok _
      · split
        · exact .ok _
        · exact .malformed _
  · exact .malformed _

theorem failsOnly_regressionParts (m : Spec.Regression) :
    FailsOnly compileTime (regressionParts d m) := by
  refine (failsOnly_requireClassification m.function _).bind fun _ => ?_
  refine (failsOnly_linearKind m).bind fun kind => ?_
  refine (failsOnly_modeledTable m).bind fun tables => ?_
  exact (failsOnly_tableClasses d m tables.1 tables.2).map _

theorem failsOnly_checkExponents (table : RegressionTable) :
    FailsOnly compileTime (checkExponents table) := by
  unfold checkExponents
  split
  · exact .unsupported _
  · exact .ok _

theorem failsOnly_regression (m : Spec.Regression) : FailsOnly compileTime (regression d m) := by
  refine (failsOnly_regressionParts d m).bind fun parts => ?_
  refine (failsOnly_checkExponents _).bind fun _ => ?_
  refine (Layout.failsOnly_arrange _ _).bind fun layout => ?_
  exact (Vectorizer.failsOnly_ofSpans layout.spans).map _

theorem failsOnly_precomputedRegression (m : Spec.Regression) :
    FailsOnly compileTime (precomputedRegression d m) := by
  refine (failsOnly_regressionParts d m).bind fun parts => ?_
  simp only
  split
  · exact .unsupported _
  · exact (failsOnly_checkExponents _).map _

theorem failsOnly_tree (m : Spec.Tree) : FailsOnly compileTime (tree d m) := by
  refine (failsOnly_requireClassification m.function _).bind fun _ => ?_
  refine (Intake.failsOnly_ofNames _ _).bind fun intake => ?_
  exact (DecisionTree.failsOnly_ofRoot m.root intake m.strategy).map _

theorem failsOnly_naiveBayes (m : Spec.NaiveBayes) : FailsOnly compileTime (naiveBayes d m) := by
  refine (failsOnly_requireClassification m.function _).bind fun _ => ?_
  refine (Intake.failsOnly_ofNames _ _).bind fun intake => ?_
  exact (NaiveBayes.failsOnly_ofSpec m intake).map _

theorem failsOnly_model (m : Spec.Model) : FailsOnly compileTime (model d m) := by
  cases m with
  | generalRegression m => exact failsOnly_generalRegression d m
  | regression m => exact failsOnly_regression d m
  | tree m => exact failsOnly_tree d m
  | naiveBayes m => exact failsOnly_naiveBayes d m
  | other family content => exact .unsupported _

theorem failsOnly_modelAt (index : Nat) : FailsOnly compileTime (modelAt d index) := by
  unfold modelAt
  split
  · exact failsOnly_model d _
  · exact .malformed _

theorem failsOnly_document : FailsOnly compileTime (document d) := by
  unfold document
  split
  · exact .malformed _
  · exact failsOnly_model d _
  · exact .unsupported _

theorem failsOnly_precomputedAt (index : Nat) : FailsOnly compileTime (precomputedAt d index) := by
  unfold precomputedAt
  split
  · exact failsOnly_precomputedRegression d _
  · exact .unsupported _
  · exact .malformed _

end Compile

end Scoring
