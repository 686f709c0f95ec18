import Scoring.Decimal.Binary

/-!
# Digits — decimal digits of a binary number

Two ways to write `significand · 2 ^ exponent` in decimal: with a given number of significant digits
(`significantDigits`), and with the fewest digits that still read back as the same word (`shortestDigits`).
Both work on exact naturals.
-/

namespace Scoring.Decimal

/-- The number `0.d₁d₂d₃… · 10 ^ point`. -/
structure Digits where
  digits : List Char
  point : Int
  deriving Repr, DecidableEq

/-- How many decimal digits a natural has; zero has none. -/
def digitCount (n : Nat) : Nat :=
  if n = 0 then 0 else (Nat.toDigits 10 n).length

/-- The largest `k` with `10 ^ k ≤ num / den`, for positive arguments. -/
def floorLog10 (num den : Nat) : Int :=
  if den ≤ num then (digitCount (num / den) : Int) - 1
  else -(digitCount ((den + num - 1) / num - 1) : Int)

/-- A coefficient of the grid of step `10 ^ step` as digits, trailing zeros dropped. -/
def Digits.ofCoefficient (coefficient : Nat) (step : Int) : Digits :=
  let ds := Nat.toDigits 10 coefficient
  ⟨(ds.reverse.dropWhile (· == '0')).reverse, step + ds.length⟩

/-- Zero, with the point behind its one digit. -/
def Digits.zero : Digits := ⟨['0'], 1⟩

/-- `count` significant digits of `num / den`, the last one rounded half to even; zero is all zeros. -/
def significantDigits (count num den : Nat) : Digits :=
  if num = 0 then ⟨List.replicate count '0', 1⟩
  else
    let k := floorLog10 num den
    let (up, down) := scaled 10 1 (k + 1 - count)
    let coefficient := divEven (num * down) (den * up)
    -- rounding may carry into one digit more
    if coefficient = Nat.pow 10 count then ⟨'1' :: List.replicate (count - 1) '0', k + 2⟩
    else ⟨Nat.toDigits 10 coefficient, k + 1⟩

/-- Where a number halfway between two candidates goes. -/
inductive Tie where
  | up
  | even
  deriving Repr, DecidableEq

/-- The numbers that a word stands for when it is read back: those from `low / den` to `high / den` around
the word's own `num / den`, the ends included when the significand is even. -/
structure Interval where
  low : Nat
  num : Nat
  high : Nat
  den : Nat
  closed : Bool

/-- The neighbourhood of `significand · 2 ^ exponent`: half a step to each side, a quarter step downwards
where the step below is half as wide. -/
def Interval.ofFinite (f : WordFormat) (significand : Nat) (exponent : Int) : Interval :=
  let narrow := significand = bitValue f.fractionBits ∧ f.lowest < exponent
  let (up, down) := scaled 2 1 (exponent - 2)
  let below := if narrow then 1 else 2
  ⟨(4 * significand - below) * up, 4 * significand * up, (4 * significand + 2) * up, down,
    significand % 2 == 0⟩

/-- The fraction `a / b` lies in the interval. -/
def Interval.contains (i : Interval) (a b : Nat) : Bool :=
  if i.closed then i.low * b ≤ a * i.den && a * i.den ≤ i.high * b
  else i.low * b < a * i.den && a * i.den < i.high * b

/-- The point of the grid of step `10 ^ step` that lies in the interval and is nearest to its number. -/
def Interval.nearestOnGrid? (i : Interval) (tie : Tie) (step : Int) : Option Nat :=
  let (up, down) := scaled 10 1 step
  let lower := i.num * down / (i.den * up)
  let upper := lower + 1
  let toLower := i.num * down - lower * up * i.den
  let toUpper := upper * up * i.den - i.num * down
  -- a point of the grid lies in the interval only if one of the number's two neighbours does
  match i.contains (lower * up) down, i.contains (upper * up) down with
  | false, false => none
  | true, false => some lower
  | false, true => some upper
  | true, true =>
    if toLower < toUpper then some lower
    else if toUpper < toLower then some upper
    else match tie with
      | .up => some upper
      | .even => some (lower + lower % 2)

/-- The hit on the coarsest of the grids with `count`, `count + 1`, … digits, `tries` of them at most. -/
def Interval.coarsest? (i : Interval) (tie : Tie) (k : Int) : (tries count : Nat) → Option Digits
  | 0, _ => none
  | tries + 1, count =>
    let step := k + 1 - count
    match i.nearestOnGrid? tie step with
    | some c => some (Digits.ofCoefficient c step)
    | none => i.coarsest? tie k tries (count + 1)

/-- The fewest digits that read back as the word of `significand · 2 ^ exponent`; of equally few, those
nearest to it. Seventeen digits always suffice for both word formats. -/
def shortestDigits (f : WordFormat) (tie : Tie) (significand : Nat) (exponent : Int) : Digits :=
  if significand = 0 then Digits.zero
  else
    let i := Interval.ofFinite f significand exponent
    let k := floorLog10 i.num i.den
    match i.coarsest? tie k 17 1 with
    | some d => d
    | none => significantDigits 17 i.num i.den

end Scoring.Decimal
