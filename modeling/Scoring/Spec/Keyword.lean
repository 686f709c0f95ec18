/-!
# Keyword — the fixed words of model documents

Many attributes of a document take one of a few words. Each such attribute is an enumeration here, with the
spelling of every word said once; reading a word searches the spellings, so a word is read back exactly as it
is written.
-/

namespace Scoring.Spec

/-- An enumeration with a spelling for each of its words. -/
class Keyword (α : Type) where
  /-- The words, each once. -/
  all : List α
  spelling : α → String

def Keyword.ofSpelling? {α : Type} [Keyword α] (s : String) : Option α :=
  (Keyword.all (α := α)).find? fun w => Keyword.spelling w == s

/-- A word as messages name it: its spelling with a capital first letter. -/
def Keyword.title {α : Type} [Keyword α] (w : α) : String :=
  (Keyword.spelling w).capitalize

inductive OpType where
  | continuous
  | categorical
  | ordinal
  deriving Repr, DecidableEq

instance : Keyword OpType where
  all := [.continuous, .categorical, .ordinal]
  spelling
    | .continuous => "continuous"
    | .categorical => "categorical"
    | .ordinal => "ordinal"

inductive DataType where
  | double
  | float
  | integer
  | string
  | boolean
  | date
  deriving Repr, DecidableEq

instance : Keyword DataType where
  all := [.double, .float, .integer, .string, .boolean, .date]
  spelling
    | .double => "double"
    | .float => "float"
    | .integer => "integer"
    | .string => "string"
    | .boolean => "boolean"
    | .date => "date"

def DataType.isNumeric : DataType → Bool
  | .double | .float | .integer => true
  | .string | .boolean | .date => false

inductive UsageType where
  | active
  | target
  | predicted
  | supplementary
  deriving Repr, DecidableEq

instance : Keyword UsageType where
  all := [.active, .target, .predicted, .supplementary]
  spelling
    | .active => "active"
    | .target => "target"
    | .predicted => "predicted"
    | .supplementary => "supplementary"

inductive MiningFunction where
  | classification
  | regression
  | clustering
  deriving Repr, DecidableEq

instance : Keyword MiningFunction where
  all := [.classification, .regression, .clustering]
  spelling
    | .classification => "classification"
    | .regression => "regression"
    | .clustering => "clustering"

inductive GeneralType where
  | regression
  | generalLinear
  | multinomialLogistic
  | ordinalMultinomial
  | generalizedLinear
  | coxRegression
  deriving Repr, DecidableEq

instance : Keyword GeneralType where
  all := [.regression, .generalLinear, .multinomialLogistic, .ordinalMultinomial, .generalizedLinear,
    .coxRegression]
  spelling
    | .regression => "regression"
    | .generalLinear => "generalLinear"
    | .multinomialLogistic => "multinomialLogistic"
    | .ordinalMultinomial => "ordinalMultinomial"
    | .generalizedLinear => "generalizedLinear"
    | .coxRegression => "CoxRegression"

inductive Distribution where
  | binomial
  | gamma
  | igauss
  | negbin
  | normal
  | poisson
  | tweedie
  deriving Repr, DecidableEq

instance : Keyword Distribution where
  all := [.binomial, .gamma, .igauss, .negbin, .normal, .poisson, .tweedie]
  spelling
    | .binomial => "binomial"
    | .gamma => "gamma"
    | .igauss => "igauss"
    | .negbin => "negbin"
    | .normal => "normal"
    | .poisson => "poisson"
    | .tweedie => "tweedie"

inductive LinkFunction where
  | cloglog
  | identity
  | log
  | logc
  | logit
  | loglog
  | negbin
  | oddspower
  | power
  | probit
  deriving Repr, DecidableEq

instance : Keyword LinkFunction where
  all := [.cloglog, .identity, .log, .logc, .logit, .loglog, .negbin, .oddspower, .power, .probit]
  spelling
    | .cloglog => "cloglog"
    | .identity => "identity"
    | .log => "log"
    | .logc => "logc"
    | .logit => "logit"
    | .loglog => "loglog"
    | .negbin => "negbin"
    | .oddspower => "oddspower"
    | .power => "power"
    | .probit => "probit"

/-- How a regression model turns its score into a probability. -/
inductive Normalization where
  | none
  | simplemax
  | softmax
  | logit
  | probit
  | cloglog
  | exp
  | loglog
  | cauchit
  deriving Repr, DecidableEq

instance : Keyword Normalization where
  all := [.none, .simplemax, .softmax, .logit, .probit, .cloglog, .exp, .loglog, .cauchit]
  spelling
    | .none => "none"
    | .simplemax => "simplemax"
    | .softmax => "softmax"
    | .logit => "logit"
    | .probit => "probit"
    | .cloglog => "cloglog"
    | .exp => "exp"
    | .loglog => "loglog"
    | .cauchit => "cauchit"

inductive NoTrueChildStrategy where
  | returnNullPrediction
  | returnLastPrediction
  deriving Repr, DecidableEq

instance : Keyword NoTrueChildStrategy where
  all := [.returnNullPrediction, .returnLastPrediction]
  spelling
    | .returnNullPrediction => "returnNullPrediction"
    | .returnLastPrediction => "returnLastPrediction"

inductive SimpleOperator where
  | equal
  | notEqual
  | lessThan
  | lessOrEqual
  | greaterThan
  | greaterOrEqual
  | isMissing
  | isNotMissing
  deriving Repr, DecidableEq

instance : Keyword SimpleOperator where
  all := [.equal, .notEqual, .lessThan, .lessOrEqual, .greaterThan, .greaterOrEqual, .isMissing,
    .isNotMissing]
  spelling
    | .equal => "equal"
    | .notEqual => "notEqual"
    | .lessThan => "lessThan"
    | .lessOrEqual => "lessOrEqual"
    | .greaterThan => "greaterThan"
    | .greaterOrEqual => "greaterOrEqual"
    | .isMissing => "isMissing"
    | .isNotMissing => "isNotMissing"

inductive SetOperator where
  | isIn
  | isNotIn
  deriving Repr, DecidableEq

instance : Keyword SetOperator where
  all := [.isIn, .isNotIn]
  spelling
    | .isIn => "isIn"
    | .isNotIn => "isNotIn"

inductive CompoundOperator where
  | and
  | or
  | xor
  | surrogate
  deriving Repr, DecidableEq

instance : Keyword CompoundOperator where
  all := [.and, .or, .xor, .surrogate]
  spelling
    | .and => "and"
    | .or => "or"
    | .xor => "xor"
    | .surrogate => "surrogate"

/-- Families of models that a document may hold but that have no evaluator. -/
inductive OtherFamily where
  | miningModel
  | neuralNetwork
  | supportVectorMachineModel
  | clusteringModel
  deriving Repr, DecidableEq

instance : Keyword OtherFamily where
  all := [.miningModel, .neuralNetwork, .supportVectorMachineModel, .clusteringModel]
  spelling
    | .miningModel => "MiningModel"
    | .neuralNetwork => "NeuralNetwork"
    | .supportVectorMachineModel => "SupportVectorMachineModel"
    | .clusteringModel => "ClusteringModel"

end Scoring.Spec
