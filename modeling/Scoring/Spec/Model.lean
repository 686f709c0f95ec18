import Scoring.Json.Basic
import Scoring.Spec.Field

/-!
# Model — the model descriptions of a document

Four families are described in full: general regression, regression, decision trees and naive Bayes. A
document may hold models of other families too; their content is kept as it is.
-/

namespace Scoring.Spec

/-! ## General regression -/

structure Parameter where
  name : String
  label : Option String
  deriving Repr, DecidableEq

/-- Ties a parameter to a predictor. For a factor the value is the category, for a covariate the exponent. -/
structure PredictorCell where
  value : Option String
  predictor : String
  parameter : String
  targetCategory : Option String
  deriving Repr, DecidableEq

structure CoefficientCell where
  targetCategory : Option String
  parameter : String
  beta : Float
  df : Option Float
  deriving Repr

structure GeneralRegression where
  name : Option String
  function : MiningFunction
  type : GeneralType
  distribution : Option Distribution
  link : Option LinkFunction
  schema : MiningSchema
  transformations : TransformationDictionary
  parameters : List Parameter
  factors : List String
  covariates : List String
  predictorCells : List PredictorCell
  coefficientCells : List CoefficientCell
  deriving Repr

/-! ## Regression -/

structure NumericTerm where
  field : String
  exponent : Int32
  coefficient : Float
  deriving Repr

structure CategoryTerm where
  field : String
  value : String
  coefficient : Float
  deriving Repr

structure RegressionTable where
  intercept : Float
  targetCategory : Option String
  numericTerms : List NumericTerm
  categoryTerms : List CategoryTerm
  deriving Repr

def RegressionTable.isEmpty (t : RegressionTable) : Bool :=
  t.numericTerms.isEmpty && t.categoryTerms.isEmpty

structure Regression where
  name : Option String
  function : MiningFunction
  normalization : Normalization
  schema : MiningSchema
  transformations : TransformationDictionary
  tables : List RegressionTable
  deriving Repr

/-! ## Decision trees -/

inductive Predicate where
  | always
  | never
  | simple (field : String) (operator : SimpleOperator) (value : Option String)
  | set (field : String) (operator : SetOperator) (values : List String)
  | compound (operator : CompoundOperator) (parts : List Predicate)
  deriving Repr, Inhabited

structure ScoreEntry where
  value : String
  recordCount : Float
  probability : Option Float
  deriving Repr

inductive Node where
  | node (id score : Option String) (recordCount : Option Float) (predicate : Predicate)
      (children : List Node) (distribution : List ScoreEntry)
  deriving Repr, Inhabited

namespace Node

/-- The identifier, if the document gives one. -/
def id? : Node → Option String
  | .node id _ _ _ _ _ => id

def score? : Node → Option String
  | .node _ score _ _ _ _ => score

def predicate : Node → Predicate
  | .node _ _ _ predicate _ _ => predicate

def children : Node → List Node
  | .node _ _ _ _ children _ => children

def distribution : Node → List ScoreEntry
  | .node _ _ _ _ _ distribution => distribution

end Node

structure Tree where
  name : Option String
  function : MiningFunction
  schema : MiningSchema
  transformations : TransformationDictionary
  strategy : NoTrueChildStrategy
  root : Node
  deriving Repr

/-! ## Naive Bayes -/

structure ClassCount where
  value : String
  count : Float
  deriving Repr

/-- How often each class was seen together with one value of an input. -/
structure PairCounts where
  value : String
  counts : List ClassCount
  deriving Repr

inductive InputDistribution where
  | gaussian (mean variance : Float)
  | poisson (mean : Float)
  | uniform (lower upper : Float)
  deriving Repr

structure ClassDistribution where
  value : String
  distribution : InputDistribution
  deriving Repr

structure BayesInput where
  field : String
  pairCounts : List PairCounts
  statistics : List ClassDistribution
  deriving Repr

/-- The classes of a naive Bayes model and how often each was seen. -/
structure BayesOutput where
  field : String
  counts : List ClassCount
  deriving Repr

structure NaiveBayes where
  name : Option String
  function : MiningFunction
  /-- No conditional probability is taken to be smaller than this. -/
  threshold : Float
  schema : MiningSchema
  transformations : TransformationDictionary
  inputs : List BayesInput
  output : BayesOutput
  deriving Repr

/-! ## Models and documents -/

inductive Model where
  | generalRegression (m : GeneralRegression)
  | regression (m : Regression)
  | tree (m : Tree)
  | naiveBayes (m : NaiveBayes)
  /-- A model without an evaluator; its content is not looked into. -/
  | other (family : OtherFamily) (content : Json)

namespace Model

def family : Model → String
  | .generalRegression _ => "GeneralRegressionModel"
  | .regression _ => "RegressionModel"
  | .tree _ => "TreeModel"
  | .naiveBayes _ => "NaiveBayesModel"
  | .other family _ => Keyword.spelling family

def name? : Model → Option String
  | .generalRegression m => m.name
  | .regression m => m.name
  | .tree m => m.name
  | .naiveBayes m => m.name
  | .other _ _ => none

def schema? : Model → Option MiningSchema
  | .generalRegression m => some m.schema
  | .regression m => some m.schema
  | .tree m => some m.schema
  | .naiveBayes m => some m.schema
  | .other _ _ => none

def localFields : Model → List DerivedField
  | .generalRegression m => m.transformations.fields
  | .regression m => m.transformations.fields
  | .tree m => m.transformations.fields
  | .naiveBayes m => m.transformations.fields
  | .other _ _ => []

end Model

structure Document where
  version : Option String
  dictionary : DataDictionary
  transformations : TransformationDictionary
  models : List Model

end Scoring.Spec
