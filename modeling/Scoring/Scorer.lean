import Scoring.DecisionTree
import Scoring.Json.Shape
import Scoring.Linear
import Scoring.NaiveBayes

/-!
# Scorer — a compiled model with everything it needs to score documents

A scorer pairs a classifier with the pipeline that turns a document into the classifier's input: a feature
vector or an observation. A precomputed pipeline leaves the vector to the caller. `run` answers a whole
document; `label` and `explanation` answer a record, `labelVector` and `explainVector` a vector.
-/

namespace Scoring

inductive Classifier where
  | logistic (m : LinearModel)
  | margin (m : LinearModel)
  | tree (t : DecisionTree)
  | bayes (m : NaiveBayes)

def Classifier.kind : Classifier → String
  | logistic _ => "logistic_regression"
  | margin _ => "linear_svm"
  | tree _ => "decision_tree"
  | bayes _ => "naive_bayes"

inductive Pipeline where
  | vector (v : Vectorizer)
  | fields (i : Intake)
  | precomputed (size : Nat)

inductive Input where
  | vector (v : SparseVector)
  | observation (o : Observation)

structure Params where
  debug : Bool
  deriving Repr, DecidableEq

namespace Params

/-- An explanation, which is what a caller gets who does not say. -/
def default : Params := ⟨true⟩

def labelOnly : Params := ⟨false⟩

/-- The parameters that a host passes; null stands for the default. -/
def ofJson (vars : Json) : Outcome Params :=
  match vars with
  | .null => .ok default
  | vars =>
    match vars.raw.record? ["debug"] with
    | some [debug] =>
      match Raw.withDefault true Raw.bool? debug with
      | some debug => .ok ⟨debug⟩
      | none => .error .unreadable
    | _ => .error .unreadable

end Params

inductive Answer where
  | label (label : String)
  | explanation (e : Explanation)

namespace Answer

def predicted : Answer → String
  | label l => l
  | explanation e => e.label

def toJson : Answer → Json
  | label l => .string l
  | explanation e => e.toJson

end Answer

structure Scorer where
  name : Option String
  pipeline : Pipeline
  classifier : Classifier

namespace Scorer

/-- The size of the vectors that the scorer works on, if it does. -/
def vectorSize? (s : Scorer) : Option Nat :=
  match s.pipeline with
  | .vector v => some v.size
  | .fields _ => none
  | .precomputed size => some size

def isPrecomputed (s : Scorer) : Bool :=
  match s.pipeline with
  | .precomputed _ => true
  | _ => false

def prepare (s : Scorer) (r : Record) : Outcome Input :=
  match s.pipeline with
  | .vector v => do .ok (.vector (← v.vectorize r))
  | .fields i => do .ok (.observation (← i.observe r))
  | .precomputed _ => .error (.mismatch .precomputedOnly)

def classify (s : Scorer) (input : Input) : Outcome String :=
  match s.classifier, input with
  | .logistic m, .vector v => m.logistic v
  | .margin m, .vector v => m.margin v
  | .tree t, .observation o => t.classify o
  | .bayes m, .observation o => m.classify o
  | c, _ => .error (.mismatch (.inputKind c.kind))

def explain (s : Scorer) (input : Input) : Outcome Explanation :=
  match s.classifier, input with
  | .logistic m, .vector v => m.explainLogistic v
  | .margin m, .vector v => m.explainMargin v
  | .tree t, .observation o => t.explain o
  | .bayes m, .observation o => m.explain o
  | c, _ => .error (.mismatch (.inputKind c.kind))

def label (s : Scorer) (r : Record) : Outcome String := do
  s.classify (← s.prepare r)

def explanation (s : Scorer) (r : Record) : Outcome Explanation := do
  s.explain (← s.prepare r)

def labelVector (s : Scorer) (v : SparseVector) : Outcome String :=
  s.classify (.vector v)

def explainVector (s : Scorer) (v : SparseVector) : Outcome Explanation :=
  s.explain (.vector v)

/-- The answer to a JSON document. Where the caller supplies the vectors, the document is a payload. -/
def run (s : Scorer) (document : Json) (params : Params) : Outcome Answer := do
  let input ← match s.pipeline with
    | .precomputed size => do .ok (Input.vector (← SparseVector.ofPayload document size))
    | _ => s.prepare (.ofJson document)
  if params.debug then .ok (.explanation (← s.explain input)) else .ok (.label (← s.classify input))

end Scorer

end Scoring
