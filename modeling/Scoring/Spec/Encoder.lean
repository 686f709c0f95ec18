import Scoring.Spec.Model

/-!
# Encoder — model documents as JSON values

Every field is written, also where it holds what its absence would mean, except a few optional ones that are
left out when they are absent (`present`). Parts nest as the document does.
-/

namespace Scoring.Spec

def Keyword.toJson {α : Type} [Keyword α] (w : α) : Json :=
  .string (Keyword.spelling w)

/-- A member that is written only when it has a value. -/
def present {α : Type} (name : String) (f : α → Json) : Option α → List (String × Json)
  | none => []
  | some a => [(name, f a)]

/-! ## Fields -/

def DataField.toJson (f : DataField) : Json :=
  .object [
    ("name", .string f.name),
    ("optype", Keyword.toJson f.optype),
    ("dataType", Keyword.toJson f.dataType),
    ("values", .ofList .string f.values)]

def DataDictionary.toJson (d : DataDictionary) : Json :=
  .object [("dataFields", .ofList DataField.toJson d.fields)]

mutual

/-- An expression with its kind as the member `type`. -/
def Expression.toJson : Expression → Json
  | .apply function arguments =>
    .object [
      ("type", .string "Apply"),
      ("function", .string function),
      ("expressions", .array (Expression.allToJson arguments))]
  | .constant value =>
    .object [("type", .string "Constant"), ("value", .ofOption .string value)]
  | .fieldRef field =>
    .object [("type", .string "FieldRef"), ("field", .string field)]
  | .unsupported => .object [("type", .string "Unsupported")]

def Expression.allToJson : List Expression → List Json
  | [] => []
  | e :: rest => e.toJson :: Expression.allToJson rest

end

def DerivedField.toJson (f : DerivedField) : Json :=
  .object [
    ("name", .string f.name),
    ("optype", Keyword.toJson f.optype),
    ("dataType", Keyword.toJson f.dataType),
    ("expression", f.expression.toJson)]

def TransformationDictionary.toJson (d : TransformationDictionary) : Json :=
  .object [("derivedFields", .ofList DerivedField.toJson d.fields)]

/-- A field of a mining schema; its replacement only where it has one. -/
def MiningField.toJson (f : MiningField) : Json :=
  .object ([
    ("name", .string f.name),
    ("usageType", Keyword.toJson f.usage)] ++
    present "missingValueReplacement" .string f.replacement)

def MiningSchema.toJson (s : MiningSchema) : Json :=
  .object [("miningFields", .ofList MiningField.toJson s.fields)]

/-! ## General regression -/

/-- A parameter; its label only where it has one. -/
def Parameter.toJson (p : Parameter) : Json :=
  .object ([("name", .string p.name)] ++ present "label" .string p.label)

/-- A predictor, given by its name. -/
def predictorToJson (name : String) : Json :=
  .object [("name", .string name)]

/-- A cell that ties a parameter to a predictor; a target category only where it has one. -/
def PredictorCell.toJson (c : PredictorCell) : Json :=
  .object ([
    ("value", .ofOption .string c.value),
    ("predictorName", .string c.predictor),
    ("parameterName", .string c.parameter)] ++
    present "targetCategory" .string c.targetCategory)

/-- A cell that gives a parameter its coefficient; degrees of freedom only where it has them. -/
def CoefficientCell.toJson (c : CoefficientCell) : Json :=
  .object ([
    ("targetCategory", .ofOption .string c.targetCategory),
    ("parameterName", .string c.parameter),
    ("beta", .ofFloat c.beta)] ++
    present "df" .ofFloat c.df)

def GeneralRegression.toJson (m : GeneralRegression) : Json :=
  .object [
    ("modelName", .ofOption .string m.name),
    ("functionName", Keyword.toJson m.function),
    ("modelType", Keyword.toJson m.type),
    ("distribution", .ofOption Keyword.toJson m.distribution),
    ("linkFunction", .ofOption Keyword.toJson m.link),
    ("miningSchema", m.schema.toJson),
    ("localTransformations", m.transformations.toJson),
    ("parameterList", .ofList Parameter.toJson m.parameters),
    ("factorList", .ofList predictorToJson m.factors),
    ("covariateList", .ofList predictorToJson m.covariates),
    ("ppMatrix", .ofList PredictorCell.toJson m.predictorCells),
    ("paramMatrix", .ofList CoefficientCell.toJson m.coefficientCells)]

/-! ## Regression -/

def NumericTerm.toJson (t : NumericTerm) : Json :=
  .object [
    ("name", .string t.field),
    ("exponent", .int t.exponent.toInt),
    ("coefficient", .ofFloat t.coefficient)]

def CategoryTerm.toJson (t : CategoryTerm) : Json :=
  .object [
    ("name", .string t.field),
    ("value", .string t.value),
    ("coefficient", .ofFloat t.coefficient)]

def RegressionTable.toJson (t : RegressionTable) : Json :=
  .object [
    ("intercept", .ofFloat t.intercept),
    ("targetCategory", .ofOption .string t.targetCategory),
    ("numericPredictors", .ofList NumericTerm.toJson t.numericTerms),
    ("categoricalPredictors", .ofList CategoryTerm.toJson t.categoryTerms)]

def Regression.toJson (m : Regression) : Json :=
  .object [
    ("modelName", .ofOption .string m.name),
    ("functionName", Keyword.toJson m.function),
    ("normalizationMethod", Keyword.toJson m.normalization),
    ("miningSchema", m.schema.toJson),
    ("localTransformations", m.transformations.toJson),
    ("regressionTables", .ofList RegressionTable.toJson m.tables)]

/-! ## Decision trees -/

mutual

def Predicate.toJson : Predicate → Json
  | .always => .string "True"
  | .never => .string "False"
  | .simple field operator value =>
    .object [("SimplePredicate", .object [
      ("field", .string field),
      ("operator", Keyword.toJson operator),
      ("value", .ofOption .string value)])]
  | .set field operator values =>
    .object [("SimpleSetPredicate", .object [
      ("field", .string field),
      ("booleanOperator", Keyword.toJson operator),
      ("array", .ofList .string values)])]
  | .compound operator parts =>
    .object [("CompoundPredicate", .object [
      ("booleanOperator", Keyword.toJson operator),
      ("predicates", .array (Predicate.allToJson parts))])]

def Predicate.allToJson : List Predicate → List Json
  | [] => []
  | p :: rest => p.toJson :: Predicate.allToJson rest

end

def ScoreEntry.toJson (e : ScoreEntry) : Json :=
  .object [
    ("value", .string e.value),
    ("recordCount", .ofFloat e.recordCount),
    ("probability", .ofOption .ofFloat e.probability)]

mutual

def Node.toJson : Node → Json
  | .node id score recordCount predicate children distribution =>
    .object [
      ("id", .ofOption .string id),
      ("score", .ofOption .string score),
      ("recordCount", .ofOption .ofFloat recordCount),
      ("predicate", predicate.toJson),
      ("nodes", .array (Node.allToJson children)),
      ("scoreDistributions", .ofList ScoreEntry.toJson distribution)]

def Node.allToJson : List Node → List Json
  | [] => []
  | n :: rest => n.toJson :: Node.allToJson rest

end

def Tree.toJson (m : Tree) : Json :=
  .object [
    ("modelName", .ofOption .string m.name),
    ("functionName", Keyword.toJson m.function),
    ("miningSchema", m.schema.toJson),
    ("localTransformations", m.transformations.toJson),
    ("noTrueChildStrategy", Keyword.toJson m.strategy),
    ("node", m.root.toJson)]

/-! ## Naive Bayes -/

def ClassCount.toJson (c : ClassCount) : Json :=
  .object [("value", .string c.value), ("count", .ofFloat c.count)]

/-- The counts of the classes beside a value of a field. -/
def PairCounts.toJson (c : PairCounts) : Json :=
  .object [
    ("value", .string c.value),
    ("targetValueCounts", .ofList ClassCount.toJson c.counts)]

/-- A continuous distribution, as an object named for its kind. -/
def InputDistribution.toJson : InputDistribution → Json
  | .gaussian mean variance =>
    .object [("GaussianDistribution", .object [("mean", .ofFloat mean), ("variance", .ofFloat variance)])]
  | .poisson mean => .object [("PoissonDistribution", .object [("mean", .ofFloat mean)])]
  | .uniform lower upper =>
    .object [("UniformDistribution", .object [("lower", .ofFloat lower), ("upper", .ofFloat upper)])]

def ClassDistribution.toJson (d : ClassDistribution) : Json :=
  .object [("value", .string d.value), ("distribution", d.distribution.toJson)]

def BayesInput.toJson (i : BayesInput) : Json :=
  .object [
    ("fieldName", .string i.field),
    ("pairCounts", .ofList PairCounts.toJson i.pairCounts),
    ("targetValueStats", .ofList ClassDistribution.toJson i.statistics)]

/-- The field that is predicted, with the counts of its classes. -/
def BayesOutput.toJson (o : BayesOutput) : Json :=
  .object [
    ("fieldName", .string o.field),
    ("targetValueCounts", .ofList ClassCount.toJson o.counts)]

def NaiveBayes.toJson (m : NaiveBayes) : Json :=
  .object [
    ("modelName", .ofOption .string m.name),
    ("functionName", Keyword.toJson m.function),
    ("threshold", .ofFloat m.threshold),
    ("miningSchema", m.schema.toJson),
    ("localTransformations", m.transformations.toJson),
    ("bayesInputs", .ofList BayesInput.toJson m.inputs),
    ("bayesOutput", m.output.toJson)]

/-! ## Models and documents -/

/-- A model, as an object named for its family. -/
def Model.toJson : Model → Json
  | .generalRegression m => .object [("GeneralRegressionModel", m.toJson)]
  | .regression m => .object [("RegressionModel", m.toJson)]
  | .tree m => .object [("TreeModel", m.toJson)]
  | .naiveBayes m => .object [("NaiveBayesModel", m.toJson)]
  | .other family content => .object [(Keyword.spelling family, content)]

/-- A document; its version only where it has one. -/
def Document.toJson (d : Document) : Json :=
  .object (present "version" .string d.version ++ [
    ("dataDictionary", d.dictionary.toJson),
    ("transformationDictionary", d.transformations.toJson),
    ("models", .ofList Model.toJson d.models)])

end Scoring.Spec
