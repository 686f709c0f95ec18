import Scoring.Explanation
import Scoring.Layout.Parameters
import Scoring.Link
import Scoring.Target

/-!
# Linear — linear classifiers over feature vectors

A linear model scores a vector with the sum of coefficient times number, plus an intercept. Logistic regression
turns the score into the probability of the positive class and answers that class from one half on; the linear
support vector machine answers it for scores above zero.
-/

namespace Scoring

/-- Coefficients for the indices of a feature vector, and the classes they separate. -/
structure LinearModel where
  coefficients : List Float
  intercept : Float
  classes : Classes
  /-- The parameters of the indices, where they have names. -/
  parameters : Option Slots

namespace LinearModel

def size (m : LinearModel) : Nat :=
  m.coefficients.length

def score (m : LinearModel) (v : SparseVector) : Outcome Float := do
  .ok ((← v.dot m.coefficients) + m.intercept)

/-- The name of the term at an index: its parameter, or else the index in brackets. -/
def termName (m : LinearModel) (i : Nat) : String :=
  match m.parameters.bind fun slots => slots.parameter? i with
  | some parameter => parameter
  | none => s!"[{i}]"

/-- What each stored entry contributes to the score, and the intercept unless it is zero. -/
def terms (m : LinearModel) (v : SparseVector) : Table Float :=
  let t := Table.ofList (v.entries.map fun e => (m.termName e.1, m.coefficients.getD e.1 0.0 * e.2))
  if m.intercept != 0.0 then t.insert "intercept" m.intercept else t

/-! ## Logistic regression -/

def probability (m : LinearModel) (v : SparseVector) : Outcome Float := do
  .ok (Link.sigmoid (← m.score v))

def logisticLabel (m : LinearModel) (p : Float) : String :=
  if p ≥ 0.5 then m.classes.positive else m.classes.negative

def logistic (m : LinearModel) (v : SparseVector) : Outcome String := do
  .ok (m.logisticLabel (← m.probability v))

/-- The class of a vector by logistic regression, with the numbers behind it. -/
def explainLogistic (m : LinearModel) (v : SparseVector) : Outcome Explanation := do
  let score ← m.score v
  let p := Link.sigmoid score
  .ok {
    label := m.logisticLabel p
    probabilities := (Table.empty.insert m.classes.positive p).insert m.classes.negative (1.0 - p)
    scores := Table.empty.insert m.classes.positive score
    terms := m.terms v
    path := [] }

/-! ## Support vector machine -/

def marginLabel (m : LinearModel) (margin : Float) : String :=
  if margin > 0.0 then m.classes.positive else m.classes.negative

/-- The class of a vector by the side of the separating plane. -/
def margin (m : LinearModel) (v : SparseVector) : Outcome String := do
  .ok (m.marginLabel (← m.score v))

/-- The class of a vector by the side of the separating plane, with the numbers behind it. -/
def explainMargin (m : LinearModel) (v : SparseVector) : Outcome Explanation := do
  let margin ← m.score v
  .ok {
    label := m.marginLabel margin
    probabilities := .empty
    scores := Table.empty.insert m.classes.positive margin
    terms := m.terms v
    path := [] }

end LinearModel

end Scoring
