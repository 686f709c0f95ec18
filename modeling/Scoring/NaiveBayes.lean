import Scoring.Explanation
import Scoring.Field.Observation
import Scoring.Link

/-!
# NaiveBayes — classification by counts and normal distributions

Each class starts with the logarithm of its share among all cases. Every input whose value is there adds the
logarithm of the value's probability within the class: from counts for a categorical input, from a normal
density for a continuous one. Probabilities below the model's threshold are raised to it.
-/

namespace Scoring

open Spec (BayesInput ClassCount ClassDistribution DataType PairCounts)

inductive Evidence where
  /-- For each category key the logarithms of its probabilities within the classes. -/
  | categorical (field : String) (type : DataType) (logProbabilities : Table (List Float))
  | gaussian (field : String) (statistics : List (Float × Float))

structure NaiveBayes where
  classes : List String
  logPriors : List Float
  threshold : Float
  evidence : List Evidence
  fields : List String

namespace NaiveBayes

/-! ## Counts -/

def placeOf (classes : List String) (input value : String) : Outcome Nat :=
  match classes.idxOf? value with
  | some i => .ok i
  | none => .error (.malformed (.undeclaredTargetValue input value))

def addCount (classes : List String) (input : String) (row : List Float) (c : ClassCount) :
    Outcome (List Float) := do
  let i ← placeOf classes input c.value
  .ok (row.modify i (· + c.count))

def addPair (classes : List String) (input : String) (key : String → String) (counts : Table (List Float))
    (p : PairCounts) : Outcome (Table (List Float)) := do
  let row := (counts.find? (key p.value)).getD (classes.map fun _ => 0.0)
  .ok (counts.insert (key p.value) (← p.counts.foldlM (addCount classes input) row))

/-- A probability, raised to the threshold when it is below. -/
def floored (threshold p : Float) : Float :=
  if p < threshold then threshold else p

/-- The logarithms of a key's probabilities within the classes; without counts a probability is zero. -/
def logProbabilities (threshold : Float) (totals : List Float) (row : Option (List Float)) : List Float :=
  totals.zipIdx.map fun (total, i) =>
    let count := (row.bind (·[i]?)).getD 0.0
    Float.log (floored threshold (if total > 0.0 then count / total else 0.0))

/-- What a categorical input adds. Its keys are those of the declared categories, where there are any. -/
def ofPairCounts (classes : List String) (threshold : Float) (f : Field) (input : BayesInput) :
    Outcome Evidence := do
  let key := fun v => (Scalar.string v).key f.dataType
  let counts ← input.pairCounts.foldlM (addPair classes input.field key) Table.empty
  let keys :=
    if f.optype == .categorical && !f.categories.isEmpty then f.categories.map key else counts.names
  -- counts for a category that the field does not declare
  match counts.names.find? fun k => k ∉ keys with
  | some k => .error (.malformed (.undeclaredInputValue input.field k))
  | none =>
    let totals := counts.values.foldl (List.zipWith (· + ·)) (classes.map fun _ => 0.0)
    .ok (.categorical f.name f.dataType
      (Table.ofList (keys.map fun k => (k, logProbabilities threshold totals (counts.find? k)))))

/-! ## Normal distributions -/

def addStatistic (classes : List String) (input : String) (row : List (Option (Float × Float)))
    (s : ClassDistribution) : Outcome (List (Option (Float × Float))) := do
  let i ← placeOf classes input s.value
  match s.distribution with
  | .gaussian mean variance =>
    if variance ≤ 0.0 then .error (.malformed (.variance input s.value))
    else .ok (row.set i (some (mean, variance)))
  | other => .error (.unsupported (.distribution input other))

/-- What a continuous input adds. It needs a distribution within every class. -/
def ofStatistics (classes : List String) (f : Field) (input : BayesInput) : Outcome Evidence := do
  let row ← input.statistics.foldlM (addStatistic classes input.field) (classes.map fun _ => none)
  match row.mapM id with
  | some statistics => .ok (.gaussian f.name statistics)
  | none => .error (.malformed (.missingStatistics input.field))

/-! ## Models -/

/-- What an input adds. Counts come before distributions when a model gives both. -/
def ofInput (classes : List String) (threshold : Float) (i : Intake) (input : BayesInput) :
    Outcome Evidence :=
  match i.find? input.field with
  | none => .error (.malformed (.unresolvedInput input.field))
  | some f =>
    if !input.pairCounts.isEmpty then ofPairCounts classes threshold f input
    else if !input.statistics.isEmpty then ofStatistics classes f input
    else .error (.malformed (.noEvidence input.field))

/-- The model of a description. Its observations show the fields of the intake. -/
def ofSpec (m : Spec.NaiveBayes) (i : Intake) : Outcome NaiveBayes := do
  let counts := m.output.counts
  let classes := counts.map (·.value)
  let total := Arithmetic.sum (counts.map (·.count))
  if counts.isEmpty then .error (.malformed (.noTargetValues m.output.field))
  else if classes.eraseDups.length ≠ classes.length then .error (.malformed .repeatedTargetValues)
  else if total ≤ 0.0 then .error (.malformed .zeroTargetCounts)
  else do
    let evidence ← m.inputs.mapM (ofInput classes m.threshold i)
    .ok {
      classes
      logPriors := counts.map fun c => Float.log (c.count / total)
      threshold := m.threshold
      evidence
      fields := i.names }

/-! ## Scores -/

def addEvidence (floor : Float) (o : Observation) (totals : List Float) : Evidence → Outcome (List Float)
  | .categorical field type logProbabilities =>
    match o.value? field with
    -- a missing value says nothing about the classes
    | none => .ok totals
    | some v =>
      match logProbabilities.find? (v.key type) with
      | some row => .ok (totals.zipWith (· + ·) row)
      | none => .error (.mismatch (.unknownValue v field))
  | .gaussian field statistics =>
    match o.value? field with
    | none => .ok totals
    | some v =>
      match v.toFloat? with
      | some x =>
        .ok (totals.zipWith
          (fun total s => total + Arithmetic.maxNumber (Link.gaussianLogDensity x s.1 s.2) floor)
          statistics)
      | none => .error (.mismatch (.notNumeric v field))

/-- The logarithm of each class's likelihood, in declaration order. -/
def logLikelihoods (m : NaiveBayes) (o : Observation) : Outcome (List Float) := do
  o.check m.fields
  m.evidence.foldlM (addEvidence (Float.log m.threshold) o) m.logPriors

def best (m : NaiveBayes) (totals : List Float) : String :=
  m.classes.getD (Arithmetic.firstGreatest totals) ""

def classify (m : NaiveBayes) (o : Observation) : Outcome String := do
  .ok (m.best (← m.logLikelihoods o))

/-- The class of an observation with the likelihoods and probabilities of all classes. -/
def explain (m : NaiveBayes) (o : Observation) : Outcome Explanation := do
  let totals ← m.logLikelihoods o
  let scores := Table.ofList (m.classes.zip totals)
  .ok {
    label := m.best totals
    probabilities := Link.softmax scores
    scores
    terms := .empty
    path := [] }

end NaiveBayes

end Scoring
