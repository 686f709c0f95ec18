import Scoring.Json.Reader
import Scoring.Json.Shape
import Scoring.Spec.Model

/-!
# Decoder — model documents read from JSON

Every part of a document has a reader `ofRaw?` that knows the names of its fields, which of them may be left
out, and what they are then. Members of other names are ignored. Expressions, predicates and tree nodes nest;
their readers end because parts are smaller than wholes.
-/

namespace Scoring.Spec

open Raw

/-- A word of an enumeration, alone or as the name of a null. -/
def Keyword.ofRaw? {α : Type} [Keyword α] (r : Raw) : Option α := do
  Keyword.ofSpelling? (← r.word?)

/-! ## Fields -/

/-- A data field. Without `values` it accepts every value of its type. -/
def DataField.ofRaw? (r : Raw) : Option DataField := do
  match ← r.record? ["name", "optype", "dataType", "values"] with
  | [name, optype, dataType, values] =>
    some {
      name := ← required string? name
      optype := ← required Keyword.ofRaw? optype
      dataType := ← required Keyword.ofRaw? dataType
      values := ← withDefault [] (list? string?) values }
  | _ => none

/-- A data dictionary, empty where it lists nothing. -/
def DataDictionary.ofRaw? (r : Raw) : Option DataDictionary := do
  match ← r.record? ["dataFields"] with
  | [fields] => some { fields := ← withDefault [] (list? DataField.ofRaw?) fields }
  | _ => none

namespace Expression

/-- The kind that a tag names. Inside another expression the three kinds also have numbers. -/
def kindOfTag? (nested : Bool) : Raw → Option String
  | .string s => some s
  | .int (.ofNat n) =>
    if nested then
      some (match n with
        | 0 => "Apply"
        | 1 => "Constant"
        | 2 => "FieldRef"
        | _ => "")
    else none
  | _ => none

/-- The kind of an expression and the record of its parts: an object with a member `type`, or an array that
starts with the kind. -/
def split? (nested : Bool) : Raw → Option (String × Raw)
  | .object members => do
    match ← unique? "type" members with
    | some tag => some (← kindOfTag? nested tag, .object members)
    | none => none
  | .array (tag :: parts) => do some (← kindOfTag? nested tag, .array parts)
  | _ => none

/-- The record of an expression's parts is no larger than the expression. -/
theorem sizeOf_le_of_split? {nested : Bool} {r body : Raw} {kind : String}
    (h : split? nested r = some (kind, body)) : sizeOf body ≤ sizeOf r := by
  unfold split? at h
  split at h
  · simp only [bind, Option.bind_eq_some_iff] at h
    obtain ⟨tag, _, h⟩ := h
    split at h
    · simp only [Option.bind_eq_some_iff] at h
      obtain ⟨_, _, h⟩ := h
      simp only [Option.some.injEq, Prod.mk.injEq] at h
      simp [← h.2]
    · simp at h
  · simp only [bind, Option.bind_eq_some_iff] at h
    obtain ⟨_, _, h⟩ := h
    simp only [Option.some.injEq, Prod.mk.injEq] at h
    simp [← h.2]
  · simp at h

mutual

def read? (nested : Bool) (r : Raw) : Option Expression :=
  match hs : split? nested r with
  | none => none
  | some (kind, body) =>
    if kind = "Apply" then
      match hb : body.record? ["function", "expressions"] with
      | some [function, none] => do some (.apply (← required string? function) [])
      | some [function, some (.array items)] =>
        have := sizeOf_lt_of_record? hb (x := .array items) (by simp)
        have := sizeOf_le_of_split? hs
        do some (.apply (← required string? function) (← readAll? items))
      | _ => none
    else if kind = "Constant" then do
      match ← body.record? ["value"] with
      | [value] => some (.constant (← nullable string? value))
      | _ => none
    else if kind = "FieldRef" then do
      match ← body.record? ["field"] with
      | [field] => some (.fieldRef (← required string? field))
      | _ => none
    -- any other kind is known to be unsupported, but then there is no place for parts
    else match body with
      | .array (_ :: _) => none
      | _ => some .unsupported
termination_by sizeOf r
decreasing_by
  have : sizeOf (Raw.array items) = 1 + sizeOf items := by simp
  omega

def readAll? : List Raw → Option (List Expression)
  | [] => some []
  | r :: rest => do some ((← read? true r) :: (← readAll? rest))
termination_by rs => sizeOf rs

end

/-- An expression. Nothing in it may be unusable, not even in parts that are ignored. -/
def ofRaw? (r : Raw) : Option Expression :=
  if r.json?.isSome then read? false r else none

end Expression

def DerivedField.ofRaw? (r : Raw) : Option DerivedField := do
  match ← r.record? ["name", "optype", "dataType", "expression"] with
  | [name, optype, dataType, expression] =>
    some {
      name := ← required string? name
      optype := ← required Keyword.ofRaw? optype
      dataType := ← required Keyword.ofRaw? dataType
      expression := ← required Expression.ofRaw? expression }
  | _ => none

/-- Derived fields, none where nothing is listed. -/
def TransformationDictionary.ofRaw? (r : Raw) : Option TransformationDictionary := do
  match ← r.record? ["derivedFields"] with
  | [fields] => some { fields := ← withDefault [] (list? DerivedField.ofRaw?) fields }
  | _ => none

/-- A field of a mining schema, active where its usage is not given. -/
def MiningField.ofRaw? (r : Raw) : Option MiningField := do
  match ← r.record? ["name", "usageType", "missingValueReplacement"] with
  | [name, usage, replacement] =>
    some {
      name := ← required string? name
      usage := ← withDefault .active Keyword.ofRaw? usage
      replacement := ← nullable string? replacement }
  | _ => none

/-- A mining schema, empty where it lists nothing. -/
def MiningSchema.ofRaw? (r : Raw) : Option MiningSchema := do
  match ← r.record? ["miningFields"] with
  | [fields] => some { fields := ← withDefault [] (list? MiningField.ofRaw?) fields }
  | _ => none

/-! ## General regression -/

def Parameter.ofRaw? (r : Raw) : Option Parameter := do
  match ← r.record? ["name", "label"] with
  | [name, label] => some { name := ← required string? name, label := ← nullable string? label }
  | _ => none

def predictor? (r : Raw) : Option String := do
  match ← r.record? ["name"] with
  | [name] => required string? name
  | _ => none

/-- A cell that ties a parameter to a predictor and, for a factor, to one of its categories. -/
def PredictorCell.ofRaw? (r : Raw) : Option PredictorCell := do
  match ← r.record? ["value", "predictorName", "parameterName", "targetCategory"] with
  | [value, predictor, parameter, targetCategory] =>
    some {
      value := ← nullable string? value
      predictor := ← required string? predictor
      parameter := ← required string? parameter
      targetCategory := ← nullable string? targetCategory }
  | _ => none

def CoefficientCell.ofRaw? (r : Raw) : Option CoefficientCell := do
  match ← r.record? ["targetCategory", "parameterName", "beta", "df"] with
  | [targetCategory, parameter, beta, df] =>
    some {
      targetCategory := ← nullable string? targetCategory
      parameter := ← required string? parameter
      beta := ← required float? beta
      df := ← nullable float? df }
  | _ => none

/-- A general regression model. The function, the kind of model and the mining schema have to be there; a list
that is left out is empty. -/
def GeneralRegression.ofRaw? (r : Raw) : Option GeneralRegression := do
  match ← r.record? ["modelName", "functionName", "modelType", "distribution", "linkFunction", "miningSchema",
      "localTransformations", "parameterList", "factorList", "covariateList", "ppMatrix", "paramMatrix"] with
  | [name, function, type, distribution, link, schema, transformations, parameters, factors, covariates,
      predictorCells, coefficientCells] =>
    some {
      name := ← nullable string? name
      function := ← required Keyword.ofRaw? function
      type := ← required Keyword.ofRaw? type
      distribution := ← nullable Keyword.ofRaw? distribution
      link := ← nullable Keyword.ofRaw? link
      schema := ← required MiningSchema.ofRaw? schema
      transformations := ← withDefault ⟨[]⟩ TransformationDictionary.ofRaw? transformations
      parameters := ← withDefault [] (list? Parameter.ofRaw?) parameters
      factors := ← withDefault [] (list? predictor?) factors
      covariates := ← withDefault [] (list? predictor?) covariates
      predictorCells := ← withDefault [] (list? PredictorCell.ofRaw?) predictorCells
      coefficientCells := ← withDefault [] (list? CoefficientCell.ofRaw?) coefficientCells }
  | _ => none

/-! ## Regression -/

/-- A term of a numeric field, with exponent 1 where none is given. -/
def NumericTerm.ofRaw? (r : Raw) : Option NumericTerm := do
  match ← r.record? ["name", "exponent", "coefficient"] with
  | [field, exponent, coefficient] =>
    some {
      field := ← required string? field
      exponent := ← withDefault 1 int32? exponent
      coefficient := ← required float? coefficient }
  | _ => none

def CategoryTerm.ofRaw? (r : Raw) : Option CategoryTerm := do
  match ← r.record? ["name", "value", "coefficient"] with
  | [field, value, coefficient] =>
    some {
      field := ← required string? field
      value := ← required string? value
      coefficient := ← required float? coefficient }
  | _ => none

/-- A regression table, with intercept 0 where none is given. -/
def RegressionTable.ofRaw? (r : Raw) : Option RegressionTable := do
  match ← r.record? ["intercept", "targetCategory", "numericPredictors", "categoricalPredictors"] with
  | [intercept, targetCategory, numericTerms, categoryTerms] =>
    some {
      intercept := ← withDefault 0.0 float? intercept
      targetCategory := ← nullable string? targetCategory
      numericTerms := ← withDefault [] (list? NumericTerm.ofRaw?) numericTerms
      categoryTerms := ← withDefault [] (list? CategoryTerm.ofRaw?) categoryTerms }
  | _ => none

/-- A regression model, not normalized where nothing else is said. -/
def Regression.ofRaw? (r : Raw) : Option Regression := do
  match ← r.record? ["modelName", "functionName", "normalizationMethod", "miningSchema",
      "localTransformations", "regressionTables"] with
  | [name, function, normalization, schema, transformations, tables] =>
    some {
      name := ← nullable string? name
      function := ← required Keyword.ofRaw? function
      normalization := ← withDefault .none Keyword.ofRaw? normalization
      schema := ← required MiningSchema.ofRaw? schema
      transformations := ← withDefault ⟨[]⟩ TransformationDictionary.ofRaw? transformations
      tables := ← withDefault [] (list? RegressionTable.ofRaw?) tables }
  | _ => none

/-! ## Decision trees -/

mutual

def Predicate.ofRaw? (origin : Origin) (r : Raw) : Option Predicate :=
  match r.word? with
  | some "True" => some .always
  | some "False" => some .never
  | some _ => none
  | none =>
    match r with
    | .object [("SimplePredicate", body)] => do
      match ← body.content? origin ["field", "operator", "value"] with
      | [field, operator, value] =>
        some (.simple (← required string? field) (← required Keyword.ofRaw? operator)
          (← nullable string? value))
      | _ => none
    | .object [("SimpleSetPredicate", body)] => do
      match ← body.content? origin ["field", "booleanOperator", "array"] with
      | [field, operator, values] =>
        some (.set (← required string? field) (← required Keyword.ofRaw? operator)
          (← required (list? string?) values))
      | _ => none
    | .object [("CompoundPredicate", body)] =>
      match hb : body.content? origin ["booleanOperator", "predicates"] with
      | some [operator, some (.array items)] =>
        have := sizeOf_lt_of_content? hb (x := .array items) (by simp)
        do some (.compound (← required Keyword.ofRaw? operator) (← Predicate.readAll? origin items))
      | _ => none
    | _ => none
termination_by sizeOf r
decreasing_by
  simp_wf
  have : sizeOf (Raw.array items) = 1 + sizeOf items := by simp
  omega

def Predicate.readAll? (origin : Origin) : List Raw → Option (List Predicate)
  | [] => some []
  | r :: rest => do some ((← Predicate.ofRaw? origin r) :: (← Predicate.readAll? origin rest))
termination_by rs => sizeOf rs

end

/-- How often a class occurs at a node. Its probability may be left out, its count may not. -/
def ScoreEntry.ofRaw? (r : Raw) : Option ScoreEntry := do
  match ← r.record? ["value", "recordCount", "probability"] with
  | [value, recordCount, probability] =>
    some {
      value := ← required string? value
      recordCount := ← required float? recordCount
      probability := ← nullable float? probability }
  | _ => none

mutual

def Node.ofRaw? (origin : Origin) (r : Raw) : Option Node :=
  match hr : r.record? ["id", "score", "recordCount", "predicate", "nodes", "scoreDistributions"] with
  | some [id, score, recordCount, predicate, none, distribution] => do
    some (.node (← nullable string? id) (← nullable string? score) (← nullable float? recordCount)
      (← required (Predicate.ofRaw? origin) predicate) []
      (← withDefault [] (list? ScoreEntry.ofRaw?) distribution))
  | some [id, score, recordCount, predicate, some (.array items), distribution] =>
    have := sizeOf_lt_of_record? hr (x := .array items) (by simp)
    do
      some (.node (← nullable string? id) (← nullable string? score) (← nullable float? recordCount)
        (← required (Predicate.ofRaw? origin) predicate) (← Node.readAll? origin items)
        (← withDefault [] (list? ScoreEntry.ofRaw?) distribution))
  | _ => none
termination_by sizeOf r
decreasing_by
  have : sizeOf (Raw.array items) = 1 + sizeOf items := by simp
  omega

def Node.readAll? (origin : Origin) : List Raw → Option (List Node)
  | [] => some []
  | r :: rest => do some ((← Node.ofRaw? origin r) :: (← Node.readAll? origin rest))
termination_by rs => sizeOf rs

end

/-- A tree model. Where no strategy is given, a node without a fitting child predicts nothing. -/
def Tree.ofRaw? (origin : Origin) (r : Raw) : Option Tree := do
  match ← r.record? ["modelName", "functionName", "miningSchema", "localTransformations",
      "noTrueChildStrategy", "node"] with
  | [name, function, schema, transformations, strategy, root] =>
    some {
      name := ← nullable string? name
      function := ← required Keyword.ofRaw? function
      schema := ← required MiningSchema.ofRaw? schema
      transformations := ← withDefault ⟨[]⟩ TransformationDictionary.ofRaw? transformations
      strategy := ← withDefault .returnNullPrediction Keyword.ofRaw? strategy
      root := ← required (Node.ofRaw? origin) root }
  | _ => none

/-! ## Naive Bayes -/

def ClassCount.ofRaw? (r : Raw) : Option ClassCount := do
  match ← r.record? ["value", "count"] with
  | [value, count] => some { value := ← required string? value, count := ← required float? count }
  | _ => none

/-- The counts of the classes beside a value of a field. -/
def PairCounts.ofRaw? (r : Raw) : Option PairCounts := do
  match ← r.record? ["value", "targetValueCounts"] with
  | [value, counts] =>
    some { value := ← required string? value, counts := ← required (list? ClassCount.ofRaw?) counts }
  | _ => none

/-- A continuous distribution, told by the name of its kind. -/
def InputDistribution.ofRaw? (origin : Origin) (r : Raw) : Option InputDistribution := do
  match ← r.variant? with
  | ("GaussianDistribution", body) =>
    match ← body.content? origin ["mean", "variance"] with
    | [mean, variance] => some (.gaussian (← required float? mean) (← required float? variance))
    | _ => none
  | ("PoissonDistribution", body) =>
    match ← body.content? origin ["mean"] with
    | [mean] => some (.poisson (← required float? mean))
    | _ => none
  | ("UniformDistribution", body) =>
    match ← body.content? origin ["lower", "upper"] with
    | [lower, upper] => some (.uniform (← required float? lower) (← required float? upper))
    | _ => none
  | _ => none

def ClassDistribution.ofRaw? (origin : Origin) (r : Raw) : Option ClassDistribution := do
  match ← r.record? ["value", "distribution"] with
  | [value, distribution] =>
    some {
      value := ← required string? value
      distribution := ← required (InputDistribution.ofRaw? origin) distribution }
  | _ => none

/-- The statistics of a field, by counts or by distributions. -/
def BayesInput.ofRaw? (origin : Origin) (r : Raw) : Option BayesInput := do
  match ← r.record? ["fieldName", "pairCounts", "targetValueStats"] with
  | [field, pairCounts, statistics] =>
    some {
      field := ← required string? field
      pairCounts := ← withDefault [] (list? PairCounts.ofRaw?) pairCounts
      statistics := ← withDefault [] (list? (ClassDistribution.ofRaw? origin)) statistics }
  | _ => none

/-- The field that is predicted, with the counts of its classes. -/
def BayesOutput.ofRaw? (r : Raw) : Option BayesOutput := do
  match ← r.record? ["fieldName", "targetValueCounts"] with
  | [field, counts] =>
    some { field := ← required string? field, counts := ← required (list? ClassCount.ofRaw?) counts }
  | _ => none

/-- A naive Bayes model, with threshold 0 where none is given. -/
def NaiveBayes.ofRaw? (origin : Origin) (r : Raw) : Option NaiveBayes := do
  match ← r.record? ["modelName", "functionName", "threshold", "miningSchema", "localTransformations",
      "bayesInputs", "bayesOutput"] with
  | [name, function, threshold, schema, transformations, inputs, output] =>
    some {
      name := ← nullable string? name
      function := ← required Keyword.ofRaw? function
      threshold := ← withDefault 0.0 float? threshold
      schema := ← required MiningSchema.ofRaw? schema
      transformations := ← withDefault ⟨[]⟩ TransformationDictionary.ofRaw? transformations
      inputs := ← withDefault [] (list? (BayesInput.ofRaw? origin)) inputs
      output := ← required BayesOutput.ofRaw? output }
  | _ => none

/-! ## Models and documents -/

/-- A model, told by the name of its family. The content of a family that is only carried along is kept as a
value. -/
def Model.ofRaw? (origin : Origin) (r : Raw) : Option Model := do
  let (family, body) ← r.variant?
  match family with
  | "GeneralRegressionModel" => (GeneralRegression.ofRaw? body).map .generalRegression
  | "RegressionModel" => (Regression.ofRaw? body).map .regression
  | "TreeModel" => (Tree.ofRaw? origin body).map .tree
  | "NaiveBayesModel" => (NaiveBayes.ofRaw? origin body).map .naiveBayes
  | family => some (.other (← Keyword.ofSpelling? family) (← body.json?))

namespace Document

/-- A document. Only the data dictionary has to be there. -/
def ofRaw? (origin : Origin) (r : Raw) : Option Document := do
  match ← r.record? ["version", "dataDictionary", "transformationDictionary", "models"] with
  | [version, dictionary, transformations, models] =>
    some {
      version := ← nullable string? version
      dictionary := ← required DataDictionary.ofRaw? dictionary
      transformations := ← withDefault ⟨[]⟩ TransformationDictionary.ofRaw? transformations
      models := ← withDefault [] (list? (Model.ofRaw? origin)) models }
  | _ => none

def ofJson? (j : Json) : Option Document :=
  ofRaw? .value j.raw

def ofString? (text : String) : Option Document := do
  ofRaw? .text (← Raw.ofString? text)

end Document

end Scoring.Spec
