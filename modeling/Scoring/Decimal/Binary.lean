/-!
# Binary — floating-point words, read and found exactly

A finite floating-point word stands for `± significand · 2 ^ exponent`. `WordFormat.unpack` takes a word
apart, and `WordFormat.nearest` finds the word closest to a ratio of naturals; both use natural arithmetic
only, so that every decimal text built on them is exact.
-/

namespace Scoring.Decimal

/-- The value of a bit by its place, the lowest place being zero. -/
def bitValue (place : Nat) : Nat :=
  Nat.pow 2 place

structure WordFormat where
  fractionBits : Nat
  exponentBits : Nat

namespace WordFormat

def double : WordFormat := ⟨52, 11⟩

def single : WordFormat := ⟨23, 8⟩

/-- The exponent of the smallest positive number, `2 ^ lowest`. -/
def lowest (f : WordFormat) : Int :=
  2 - (bitValue (f.exponentBits - 1) : Int) - f.fractionBits

def infinity (f : WordFormat) : Nat :=
  (bitValue f.exponentBits - 1) * bitValue f.fractionBits

def signBit (f : WordFormat) : Nat :=
  bitValue (f.fractionBits + f.exponentBits)

end WordFormat

inductive Unpacked where
  | nan
  | infinite (negative : Bool)
  /-- The number `± significand · 2 ^ exponent`. -/
  | finite (negative : Bool) (significand : Nat) (exponent : Int)

def WordFormat.unpack (f : WordFormat) (word : Nat) : Unpacked :=
  let negative := word / f.signBit % 2 == 1
  let field := word / bitValue f.fractionBits % bitValue f.exponentBits
  let fraction := word % bitValue f.fractionBits
  if field + 1 = bitValue f.exponentBits then
    if fraction = 0 then .infinite negative else .nan
  -- an exponent field of zeros goes with the smallest exponent and no hidden bit
  else if field = 0 then .finite negative fraction f.lowest
  else .finite negative (bitValue f.fractionBits + fraction) (f.lowest + field - 1)

/-- The quotient rounded to the nearest natural, a half going to the even neighbour. -/
def divEven (num den : Nat) : Nat :=
  let q := num / den
  let r := num % den
  if 2 * r < den then q
  else if den < 2 * r then q + 1
  else q + q % 2

/-- `a · base ^ e` as a fraction with a denominator of its own. -/
def scaled (base a : Nat) (e : Int) : Nat × Nat :=
  if e < 0 then (a, Nat.pow base e.natAbs) else (a * Nat.pow base e.toNat, 1)

/-- The largest `k` with `2 ^ k ≤ num / den`, for positive arguments. -/
def floorLog2 (num den : Nat) : Int :=
  let k : Int := (num.log2 : Int) - den.log2
  -- the lengths of the two numbers give the power up to one
  let (hi, lo) := scaled 2 1 k
  if den * hi ≤ num * lo then k else k - 1

/-- The word without sign bit that is nearest to `num / den`; a tie goes to the even significand, and what
lies half a step above the largest finite number or higher goes to infinity. -/
def WordFormat.nearest (f : WordFormat) (num den : Nat) : Nat :=
  if num = 0 then 0
  else
    let exponent := max f.lowest (floorLog2 num den - f.fractionBits)
    let (up, down) := scaled 2 1 exponent
    let significand := divEven (num * down) (den * up)
    -- a significand that carries moves on to the next exponent by itself
    min f.infinity ((exponent - f.lowest).toNat * bitValue f.fractionBits + significand)

/-- The word of `target` nearest to what a word of `source` stands for. Beyond the greatest number lies infinity,
and what is not a number stays none. -/
def WordFormat.convert (source target : WordFormat) (word : Nat) : Nat :=
  match source.unpack word with
  | .nan => target.infinity + bitValue (target.fractionBits - 1)
  | .infinite negative => (if negative then target.signBit else 0) + target.infinity
  | .finite negative significand exponent =>
    let (num, den) := scaled 2 significand exponent
    (if negative then target.signBit else 0) + target.nearest num den

/-- A number in single precision as a double. -/
def widen (x : Float32) : Float :=
  Float.ofBits (WordFormat.single.convert .double x.toBits.toNat).toUInt64

/-- A double rounded to single precision. -/
def narrow (x : Float) : Float32 :=
  Float32.ofBits (WordFormat.double.convert .single x.toBits.toNat).toUInt32

/-- A quotient without remainder is not moved. -/
theorem divEven_exact (q den : Nat) (h : 0 < den) : divEven (q * den) den = q := by
  simp [divEven, Nat.mul_div_cancel _ h, h]

end Scoring.Decimal
