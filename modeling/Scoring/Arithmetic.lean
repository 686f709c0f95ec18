/-!
# Arithmetic — sums, order and maxima of doubles

Sums go from left to right, because no other order gives the same digits. `compare` is a total preorder in
which the two zeros are equal and what is not a number comes last.
-/

namespace Scoring.Arithmetic

/-- The sum from left to right. An empty sum is negative zero, which leaves every number unchanged. -/
def sum (xs : List Float) : Float :=
  xs.foldl (· + ·) (-0.0)

/-- The order of doubles, with every NaN equal to every other and greater than all numbers. -/
def compare (x y : Float) : Ordering :=
  if x.isNaN then if y.isNaN then .eq else .gt
  else if y.isNaN then .lt
  else if x < y then .lt
  else if y < x then .gt
  else .eq

/-- The greater of two doubles; a NaN counts only against another one. -/
def maxNumber (x y : Float) : Float :=
  if x.isNaN then y
  else if y.isNaN then x
  else if x < y then y
  else x

/-- The greatest of a list, negative infinity when there is no number in it. -/
def maximum (xs : List Float) : Float :=
  xs.foldl maxNumber (-(1.0 / 0.0))

def firstGreatest : List Float → Nat
  | [] => 0
  | x :: xs => go xs 1 0 x
where
  /-- `best` at position `at` is the first greatest so far. -/
  go : List Float → Nat → Nat → Float → Nat
    | [], _, place, _ => place
    | x :: xs, next, place, best =>
      -- an equal number does not take over, so the first of the greatest stays
      if compare best x = .lt then go xs (next + 1) next x else go xs (next + 1) place best

end Scoring.Arithmetic
