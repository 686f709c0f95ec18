import Scoring.Json.Printer
import Scoring.Scalar.Basic
import Scoring.Spec.Model

/-!
# Fault — why compiling or scoring fails

Every failure has a cause of its own. The causes fall into three kinds that a caller can act on: the document
asks for something that is not implemented (`Unsupported`), the document contradicts itself or lacks
something (`Malformed`), or an input does not fit a compiled model (`Mismatch`). `Fault.message` is the only
place where a failure is put into words.
-/

namespace Scoring

open Spec

/-! ## Causes -/

/-- What a document may ask for but does not get. -/
inductive Unsupported where
  | literalType (type : DataType)
  | derivation (field kind : String)
  | noReplacement (field : String)
  | continuousType (field : String) (type : DataType)
  | optype (field : String) (type : OpType)
  | sharedParameter (parameter : String)
  | continuousTerms (field : String) (count : Nat)
  | modeledCategories (count : Nat)
  | targetClasses (target : String) (count : Nat)
  | family (name : String)
  | function (model : String) (name : MiningFunction)
  | generalRegression (type : GeneralType) (errors : Option Distribution) (link : Option LinkFunction)
  | power (covariate given : String)
  | repeatedCoefficient (parameter : String)
  | normalization (method : Normalization)
  | tableCount (count : Nat)
  | secondTableTerms
  | exponent (predictor : String) (value : Int32)
  | precomputedCategories
  | precomputedFamily (name : String)
  | modelCount (count : Nat)
  | orderOnText (operator : SimpleOperator) (field : String)
  | distribution (input : String) (given : InputDistribution)

inductive Malformed where
  | notDouble (literal : String)
  | notFloat (literal : String)
  | notInteger (literal : String)
  | undeclaredField (name : String)
  | cycle (field : String)
  | noCategories (field : String)
  | repeatedCategory (field category : String)
  | repeatedParameter (parameter : String)
  | undeclaredParameter (field parameter : String)
  | cellWithoutCategory (field : String)
  | undeclaredCategory (category field : String)
  | repeatedCell (category field : String)
  | layoutSize (size parameters : Nat)
  | gap (range : String) (start previousEnd : Nat)
  | noModeledCategory (target : String)
  | noOtherClass (target positive : String)
  | severalOtherClasses (target positive : String)
  | noTarget
  | undeclaredTarget (name : String)
  | factorWithoutCategory (factor : String)
  | unknownPredictor (name : String)
  | coefficientWithoutTarget (parameter : String)
  | undeclaredCoefficient (parameter : String)
  | tableWithoutTarget
  | sharedTableTarget (category : String)
  | secondTableTarget (negative positive target : String)
  | noModel
  | modelIndex (index count : Nat)
  | noModelAt (index : Nat)
  | emptyDistribution (id : Option String)
  | leafWithoutClass (id : String)
  | untestableField (field : String)
  | testWithoutValue (operator : SimpleOperator) (field : String)
  | operand (literal : String)
  | noTargetValues (output : String)
  | repeatedTargetValues
  | zeroTargetCounts
  | unresolvedInput (input : String)
  | undeclaredTargetValue (input value : String)
  | undeclaredInputValue (input value : String)
  | variance (input value : String)
  | missingStatistics (input : String)
  | noEvidence (input : String)

inductive Mismatch where
  | vectorLengths (indices values : Nat)
  | indexOutOfRange (index size : Nat)
  | notAscending (index previous : Nat)
  | noIndices
  | noValues
  | badIndex (item : Json)
  | badValue (item : Json)
  | vectorSize (size coefficients : Nat)
  | continuousMissing (field : String)
  | continuousRepeated (field : String) (count : Nat)
  | continuousText (field : String) (value : Scalar)
  | undeclaredCategory (value : Scalar) (field : String)
  | dataType (field : String) (value : Scalar) (type : DataType)
  | repeatedValue (field : String) (count : Nat)
  | noField (field : String)
  | extraFields (names : List String) (expected : Nat)
  | inputKind (model : String)
  | precomputedOnly
  | rootFails
  | noChild (id : String)
  | noPrediction (id : String)
  | unknownValue (value : Scalar) (field : String)
  | notNumeric (value : Scalar) (field : String)

inductive Fault where
  | unsupported (cause : Unsupported)
  | malformed (cause : Malformed)
  | mismatch (cause : Mismatch)
  /-- A file that does not exist. -/
  | missingFile
  /-- A text that is not JSON, or not of the shape that is asked for. -/
  | unreadable

abbrev Outcome (α : Type) := Except Fault α

/-! ## Kinds -/

inductive FaultKind where
  | unsupported
  | malformed
  | mismatch
  | file
  | serialization
  deriving Repr, DecidableEq

namespace FaultKind

def label : FaultKind → String
  | unsupported => "Unsupported model spec: "
  | malformed => "Malformed model spec: "
  | mismatch => "Evaluation mismatch: "
  | file => "IO error: "
  | serialization => "Serialization error: "

def message (k : FaultKind) (text : String) : String :=
  k.label ++ text

/-- The document is at fault, and not an input or a file. -/
def isCompileError : FaultKind → Bool
  | unsupported | malformed => true
  | mismatch | file | serialization => false

end FaultKind

def Fault.kind : Fault → FaultKind
  | unsupported _ => .unsupported
  | malformed _ => .malformed
  | mismatch _ => .mismatch
  | missingFile => .file
  | unreadable => .serialization

/-! ## Words -/

def optionText {α : Type} [Keyword α] : Option α → String
  | none => "None"
  | some w => "Some(" ++ Keyword.title w ++ ")"

def parameterText (x : Float) : String :=
  Decimal.shortestText .double .parameter x.toBits.toNat

def distributionText : InputDistribution → String
  | .gaussian mean variance =>
    s!"GaussianDistribution \x7b mean: {parameterText mean}, variance: {parameterText variance} \x7d"
  | .poisson mean => s!"PoissonDistribution \x7b mean: {parameterText mean} \x7d"
  | .uniform lower upper =>
    s!"UniformDistribution \x7b lower: {parameterText lower}, upper: {parameterText upper} \x7d"

/-- What is not implemented. -/
def Unsupported.text : Unsupported → String
  | literalType type =>
    s!"only double, float, integer and string literals are implemented, got {Keyword.title type}"
  | derivation field kind =>
    s!"derived field '{field}': only if(isMissing(x), constant, x) is implemented, got {kind}"
  | noReplacement field => s!"derived field '{field}' has no replacement literal"
  | continuousType field type =>
    s!"continuous field '{field}' has non-numeric datatype {Keyword.title type}"
  | optype field type =>
    s!"field '{field}' has operational type {Keyword.title type}; only continuous and categorical are implemented"
  | sharedParameter parameter =>
    s!"parameter '{parameter}' is tied to more than one predictor; correlated predictors are not implemented"
  | continuousTerms field count =>
    s!"continuous field '{field}' has {count} coefficient cells; only one linear term is implemented"
  | modeledCategories count =>
    s!"{count} target categories are modeled; only binary classification is implemented"
  | targetClasses target count =>
    s!"target '{target}' declares {count} classes; only binary classification is implemented"
  | family name => s!"model family {name} is not implemented"
  | function model name =>
    s!"{model} with function {Keyword.title name} is not implemented; only classification is"
  | generalRegression type errors link =>
    s!"general regression of type {Keyword.title type} (distribution {optionText errors}, link {optionText link}) is not implemented"
  | power covariate given =>
    s!"covariate '{covariate}' raised to power '{given}'; only linear terms are implemented"
  | repeatedCoefficient parameter =>
    s!"parameter '{parameter}' has more than one coefficient; only binary classification is implemented"
  | normalization method => s!"regression normalization {Keyword.title method} is not implemented"
  | tableCount count => s!"{count} regression tables; only binary classification is implemented"
  | secondTableTerms => "second regression table carries terms; only one modeled class is implemented"
  | exponent predictor value =>
    s!"predictor '{predictor}' has exponent {value.toInt}; only linear terms are implemented"
  | precomputedCategories => "categorical predictors cannot be scored against a pre-computed vector"
  | precomputedFamily name =>
    s!"pre-computed vectors are only implemented for RegressionModel, not {name}"
  | modelCount count =>
    s!"document contains {count} models; only single-model documents are implemented"
  | orderOnText operator field =>
    s!"{Keyword.title operator} on non-numeric field '{field}' is not implemented"
  | distribution input given =>
    s!"bayes input '{input}': only gaussian distributions are implemented, got {distributionText given}"

def Malformed.text : Malformed → String
  | notDouble literal => s!"'{literal}' is not a valid double"
  | notFloat literal => s!"'{literal}' is not a valid float"
  | notInteger literal => s!"'{literal}' is not a valid integer"
  | undeclaredField name => s!"field '{name}' is not declared"
  | cycle field => s!"derived field '{field}' is part of a reference cycle"
  | noCategories field => s!"categorical field '{field}' declares no values"
  | repeatedCategory field category => s!"categorical field '{field}' declares '{category}' twice"
  | repeatedParameter parameter => s!"parameter '{parameter}' is declared more than once"
  | undeclaredParameter field parameter =>
    s!"cell for field '{field}' names undeclared parameter '{parameter}'"
  | cellWithoutCategory field => s!"cell for categorical field '{field}' names no category"
  | undeclaredCategory category field => s!"'{category}' is not a declared category of '{field}'"
  | repeatedCell category field => s!"category '{category}' of '{field}' has more than one parameter"
  | layoutSize size parameters => s!"vector size {size} does not match {parameters} ordered parameters"
  | gap range start previousEnd =>
    s!"range '{range}' starts at {start} but the previous range ends at {previousEnd}"
  | noModeledCategory target => s!"no target category of '{target}' is modeled"
  | noOtherClass target positive => s!"target '{target}' declares no class other than '{positive}'"
  | severalOtherClasses target positive =>
    s!"target '{target}' declares more than one class other than '{positive}'"
  | noTarget => "mining schema declares no target field"
  | undeclaredTarget name => s!"target field '{name}' is not in the data dictionary"
  | factorWithoutCategory factor => s!"cell for factor '{factor}' names no category"
  | unknownPredictor name => s!"cell names '{name}', which is neither a factor nor a covariate"
  | coefficientWithoutTarget parameter => s!"coefficient for '{parameter}' names no target category"
  | undeclaredCoefficient parameter => s!"coefficient names undeclared parameter '{parameter}'"
  | tableWithoutTarget => "regression table names no target category"
  | sharedTableTarget category => s!"both regression tables model category '{category}'"
  | secondTableTarget negative positive target =>
    s!"second regression table names '{negative}', which is not the complement of '{positive}' on '{target}'"
  | noModel => "document contains no model"
  | modelIndex index count => s!"model index {index} out of range for {count} models"
  | noModelAt index => s!"no model at index {index}"
  | emptyDistribution none => "node '?' has a score distribution with no records"
  | emptyDistribution (some id) => s!"node '{id}' has a score distribution with no records"
  | leafWithoutClass id => s!"leaf node '{id}' has neither a score nor a score distribution"
  | untestableField field => s!"predicate tests unknown field '{field}'"
  | testWithoutValue operator field => s!"{Keyword.title operator} on '{field}' has no value"
  | operand literal => s!"invalid operand '{literal}'"
  | noTargetValues output => s!"output '{output}' declares no target values"
  | repeatedTargetValues => "target values are declared more than once"
  | zeroTargetCounts => "target value counts sum to zero"
  | unresolvedInput input => s!"bayes input '{input}' is not a resolved field"
  | undeclaredTargetValue input value =>
    s!"bayes input '{input}' refers to undeclared target value '{value}'"
  | undeclaredInputValue input value => s!"bayes input '{input}' counts undeclared value '{value}'"
  | variance input value => s!"bayes input '{input}' has non-positive variance for '{value}'"
  | missingStatistics input => s!"bayes input '{input}' lacks statistics for some target values"
  | noEvidence input => s!"bayes input '{input}' has neither pair counts nor target value statistics"

def Mismatch.text : Mismatch → String
  | vectorLengths indices values => s!"vector has {indices} indices but {values} values"
  | indexOutOfRange index size => s!"vector index {index} out of range for size {size}"
  | notAscending index previous =>
    s!"vector indices must be strictly ascending, found {index} after {previous}"
  | noIndices => "vector payload has no 'indices' array"
  | noValues => "vector payload has no 'values' array"
  | badIndex item => s!"invalid vector index {item.compact}"
  | badValue item => s!"invalid vector value {item.compact}"
  | vectorSize size coefficients =>
    s!"vector size {size} does not match {coefficients} model coefficients"
  | continuousMissing field => s!"continuous field '{field}' has no value"
  | continuousRepeated field count => s!"continuous field '{field}' has {count} values, expected one"
  | continuousText field value => s!"continuous field '{field}' has non-numeric value '{value.text}'"
  | undeclaredCategory value field => s!"value '{value.text}' is not a declared category of '{field}'"
  | dataType field value type =>
    s!"field '{field}' value '{value.text}' does not fit datatype {Keyword.title type}"
  | repeatedValue field count => s!"field '{field}' has {count} values, expected at most one"
  | noField field => s!"input has no field '{field}'"
  | extraFields names expected =>
    let listed := ", ".intercalate names
    s!"input has {names.length} fields ({listed}), model expects {expected}"
  | inputKind model => s!"input kind does not fit a {model} model"
  | precomputedOnly => "model scores pre-computed vectors, not document fields"
  | rootFails => "root predicate does not hold for this input"
  | noChild id => s!"no child predicate of node '{id}' holds and no prediction is available"
  | noPrediction id => s!"node '{id}' carries no prediction"
  | unknownValue value field => s!"'{value.text}' is not a known value of '{field}'"
  | notNumeric value field => s!"'{value.text}' is not numeric for '{field}'"

/-- The failure without its kind. -/
def Fault.text : Fault → String
  | unsupported cause => cause.text
  | malformed cause => cause.text
  | mismatch cause => cause.text
  | missingFile => "No such file or directory (os error 2)"
  | unreadable => "not a JSON text of the expected shape"

def Fault.message (f : Fault) : String :=
  f.kind.message f.text

def Fault.isCompileError (f : Fault) : Bool :=
  f.kind.isCompileError

end Scoring
