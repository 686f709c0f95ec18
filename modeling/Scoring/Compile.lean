import Scoring.Scorer

/-!
# Compile — scorers made from model descriptions

Each family has a compiler that checks the description, lays out the input and hands back a scorer. Whatever can
be wrong with a description is found here and not when documents are scored. A document is compiled as a whole
when it holds one model, else by the index of a model.
-/

namespace Scoring

open Spec (Document Keyword MiningFunction MiningSchema RegressionTable TransformationDictionary)

namespace Compile

/-! ## Common checks -/

/-- The fields in sight of a model: its own derived fields come after the global ones and hide those of the same
name. -/
def scope (d : Document) (schema : MiningSchema) (transformations : TransformationDictionary) : Scope :=
  ⟨d.dictionary, d.transformations.fields ++ transformations.fields, some schema⟩

def targetField (d : Document) (schema : MiningSchema) : Outcome Spec.DataField :=
  match schema.target? with
  | none => .error (.malformed .noTarget)
  | some name =>
    match d.dictionary.field? name with
    | some f => .ok f
    | none => .error (.malformed (.undeclaredTarget name))

def requireClassification (function : MiningFunction) (family : String) : Outcome Unit :=
  if function = .classification then .ok () else .error (.unsupported (.function family function))

/-! ## General regression -/

def isLogistic (m : Spec.GeneralRegression) : Bool :=
  match m.type with
  | .multinomialLogistic => true
  | .generalizedLinear => m.distribution == some .binomial && m.link == some .logit
  | _ => false

def cellOf (m : Spec.GeneralRegression) (c : Spec.PredictorCell) : Outcome Cell :=
  if c.predictor ∈ m.factors then
    match c.value with
    | some category => .ok ⟨c.predictor, some category, c.parameter⟩
    | none => .error (.malformed (.factorWithoutCategory c.predictor))
  else if c.predictor ∈ m.covariates then
    match c.value with
    | none => .ok ⟨c.predictor, none, c.parameter⟩
    | some exponent =>
      -- the value of a covariate is an exponent, and only the first power is linear
      match Decimal.float? (Text.trim exponent) with
      | some x =>
        if x == 1.0 then .ok ⟨c.predictor, none, c.parameter⟩
        else .error (.unsupported (.power c.predictor exponent))
      | none => .error (.unsupported (.power c.predictor exponent))
  else .error (.malformed (.unknownPredictor c.predictor))

/-- Note the coefficient of a parameter, which may have one only. -/
def addCoefficient (declared : List String) (betas : Table Float) (c : Spec.CoefficientCell) :
    Outcome (Table Float) :=
  if c.targetCategory.isNone then .error (.malformed (.coefficientWithoutTarget c.parameter))
  else if c.parameter ∉ declared then .error (.malformed (.undeclaredCoefficient c.parameter))
  else if betas.contains c.parameter then .error (.unsupported (.repeatedCoefficient c.parameter))
  else .ok (betas.insert c.parameter c.beta)

def generalRegression (d : Document) (m : Spec.GeneralRegression) : Outcome Scorer := do
  requireClassification m.function "GeneralRegressionModel"
  if !isLogistic m then .error (.unsupported (.generalRegression m.type m.distribution m.link))
  let cells ← m.predictorCells.mapM (cellOf m)
  let declared := m.parameters.map (·.name)
  let layout ← Layout.arrange ⟨declared, cells⟩ (scope d m.schema m.transformations)
  let betas ← m.coefficientCells.foldlM (addCoefficient declared) Table.empty
  let target ← targetField d m.schema
  let classes ← Classes.ofCategories (m.coefficientCells.filterMap (·.targetCategory)) target
  let vectorizer ← Vectorizer.ofSpans layout.spans
  -- the intercept is one of the parameters, so nothing is added to the product
  .ok {
    name := m.name
    pipeline := .vector vectorizer
    classifier := .logistic ⟨layout.slots.coefficients betas, 0.0, classes, some layout.slots⟩ }

/-! ## Regression -/

inductive LinearKind where
  | logistic
  | margin
  deriving Repr, DecidableEq

def LinearKind.classifier : LinearKind → LinearModel → Classifier
  | logistic => .logistic
  | margin => .margin

def linearKind (m : Spec.Regression) : Outcome LinearKind :=
  match m.normalization with
  | .logit => .ok .logistic
  | .none => .ok .margin
  | other => .error (.unsupported (.normalization other))

/-- The table with the terms. There have to be two tables, the second one empty. -/
def modeledTable (m : Spec.Regression) : Outcome (RegressionTable × RegressionTable) :=
  match m.tables with
  | [table, rest] =>
    if !rest.isEmpty || rest.intercept != 0.0 then .error (.unsupported .secondTableTerms)
    else .ok (table, rest)
  | tables => .error (.unsupported (.tableCount tables.length))

/-- The classes of a regression model: the first table names the positive one, and what the second one names, if
it names any, has to be the other. -/
def tableClasses (d : Document) (m : Spec.Regression) (table rest : RegressionTable) : Outcome Classes := do
  let positive ← match table.targetCategory with
    | some category => Except.ok category
    | none => .error (.malformed .tableWithoutTarget)
  let target ← targetField d m.schema
  if rest.targetCategory = some positive then .error (.malformed (.sharedTableTarget positive))
  let classes ← Classes.ofCategories [positive] target
  match rest.targetCategory with
  | none => .ok classes
  | some negative =>
    if Classes.key target negative = Classes.key target classes.negative then .ok classes
    else .error (.malformed (.secondTableTarget negative positive target.name))

/-- The kind, terms and classes of a regression model. -/
def regressionParts (d : Document) (m : Spec.Regression) :
    Outcome (LinearKind × RegressionTable × Classes) := do
  requireClassification m.function "RegressionModel"
  let kind ← linearKind m
  let (table, rest) ← modeledTable m
  let classes ← tableClasses d m table rest
  .ok (kind, table, classes)

def checkExponents (table : RegressionTable) : Outcome Unit :=
  match table.numericTerms.find? fun t => t.exponent != 1 with
  | some t => .error (.unsupported (.exponent t.field t.exponent))
  | none => .ok ()

/-- The name of the parameter that is the intercept of a table. -/
def interceptParameter : String := "(intercept)"

/-- The tie of a numeric term; its parameter is named like its field. -/
def numericCell (t : Spec.NumericTerm) : Cell :=
  ⟨t.field, none, t.field⟩

/-- The tie of a category's term; its parameter is named after the field and the category. -/
def categoryCell (t : Spec.CategoryTerm) : Cell :=
  ⟨t.field, some t.value, s!"{t.field}={t.value}"⟩

/-- The cells of a table with their coefficients, in the order of its terms. -/
def tableCells (table : RegressionTable) : List (Cell × Float) :=
  table.numericTerms.map (fun t => (numericCell t, t.coefficient)) ++
    table.categoryTerms.map (fun t => (categoryCell t, t.coefficient))

/-- The parameters of a table with their coefficients; the intercept comes last. -/
def tableParameters (table : RegressionTable) : List (String × Float) :=
  (tableCells table).map (fun c => (c.1.parameter, c.2)) ++ [(interceptParameter, table.intercept)]

/-- Logistic regression or a support vector machine on the fields of documents. -/
def regression (d : Document) (m : Spec.Regression) : Outcome Scorer := do
  let (kind, table, classes) ← regressionParts d m
  checkExponents table
  let parameters := tableParameters table
  let layout ← Layout.arrange ⟨parameters.map (·.1), (tableCells table).map (·.1)⟩
    (scope d m.schema m.transformations)
  let vectorizer ← Vectorizer.ofSpans layout.spans
  .ok {
    name := m.name
    pipeline := .vector vectorizer
    classifier := kind.classifier
      ⟨layout.slots.coefficients (Table.ofList parameters), 0.0, classes, some layout.slots⟩ }

/-- Logistic regression or a support vector machine on vectors that the caller supplies. Their indices follow
the order of the numeric terms, and the intercept stands apart. -/
def precomputedRegression (d : Document) (m : Spec.Regression) : Outcome Scorer := do
  let (kind, table, classes) ← regressionParts d m
  if !table.categoryTerms.isEmpty then .error (.unsupported .precomputedCategories)
  checkExponents table
  let coefficients := table.numericTerms.map (·.coefficient)
  .ok {
    name := m.name
    pipeline := .precomputed coefficients.length
    classifier := kind.classifier ⟨coefficients, table.intercept, classes, none⟩ }

/-! ## Trees and naive Bayes -/

/-- A decision tree on the fields that its predicates test. -/
def tree (d : Document) (m : Spec.Tree) : Outcome Scorer := do
  requireClassification m.function "TreeModel"
  let intake ← Intake.ofNames (scope d m.schema m.transformations) m.root.testedFields
  let t ← DecisionTree.ofRoot m.root intake m.strategy
  .ok { name := m.name, pipeline := .fields intake, classifier := .tree t }

def naiveBayes (d : Document) (m : Spec.NaiveBayes) : Outcome Scorer := do
  requireClassification m.function "NaiveBayesModel"
  let intake ← Intake.ofNames (scope d m.schema m.transformations) (m.inputs.map (·.field))
  let bayes ← NaiveBayes.ofSpec m intake
  .ok { name := m.name, pipeline := .fields intake, classifier := .bayes bayes }

/-! ## Documents -/

def model (d : Document) : Spec.Model → Outcome Scorer
  | .generalRegression m => generalRegression d m
  | .regression m => regression d m
  | .tree m => tree d m
  | .naiveBayes m => naiveBayes d m
  | .other family _ => .error (.unsupported (.family (Keyword.spelling family)))

def modelAt (d : Document) (index : Nat) : Outcome Scorer :=
  match d.models[index]? with
  | some m => model d m
  | none => .error (.malformed (.modelIndex index d.models.length))

/-- The only model of a document. -/
def document (d : Document) : Outcome Scorer :=
  match d.models with
  | [] => .error (.malformed .noModel)
  | [m] => model d m
  | models => .error (.unsupported (.modelCount models.length))

/-- The regression model at an index of a document, for vectors that the caller supplies. -/
def precomputedAt (d : Document) (index : Nat) : Outcome Scorer :=
  match d.models[index]? with
  | some (.regression m) => precomputedRegression d m
  | some other => .error (.unsupported (.precomputedFamily other.family))
  | none => .error (.malformed (.noModelAt index))

end Compile

end Scoring
