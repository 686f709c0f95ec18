import Scoring.Arithmetic
import Scoring.Table

/-!
# Link — from scores to probabilities
-/

namespace Scoring.Link

/-- The logistic function, written so that neither side overflows. -/
def sigmoid (x : Float) : Float :=
  if x ≥ 0.0 then 1.0 / (1.0 + Float.exp (-x))
  else
    let e := Float.exp x
    e / (1.0 + e)

/-- The logarithm of the sum of exponentials, computed around the greatest number. -/
def logSumExp (xs : List Float) : Float :=
  let top := Arithmetic.maximum xs
  if top == -(1.0 / 0.0) then top
  else top + Float.log (Arithmetic.sum (xs.map fun x => Float.exp (x - top)))

/-- Probabilities in proportion to the exponentials of the scores. -/
def softmax (scores : Table Float) : Table Float :=
  let norm := logSumExp scores.values
  scores.map fun x => if norm == -(1.0 / 0.0) then 0.0 else Float.exp (x - norm)

/-- The ratio of the circumference of a circle to its diameter. -/
def pi : Float := 3.141592653589793

/-- The logarithm of the density of a normal distribution. -/
def gaussianLogDensity (x mean variance : Float) : Float :=
  let diff := x - mean
  let spread := Float.log (2.0 * pi * variance) + diff * diff / variance
  spread * -0.5

end Scoring.Link
