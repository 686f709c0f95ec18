import Scoring.Decimal.Digits

/-!
# Text — the written forms of floating-point numbers

Messages, JSON texts and reports each write numbers their own way. What differs is small and is said in one
record, `TextFormat`: which numbers are written positionally, whether a whole number keeps its `.0`, whether
an exponent that is not negative carries a sign, and which way a tie between two equally short forms goes.
-/

namespace Scoring.Decimal

/-- The choices of a written form that uses the fewest digits. -/
structure TextFormat where
  /-- Which numbers `0.d₁d₂… · 10 ^ point` are written without an exponent. -/
  positional : Int → Bool
  /-- Whole numbers end in `.0`. -/
  keepsPoint : Bool
  /-- An exponent that is not negative carries a `+`. -/
  signsExponent : Bool
  tie : Tie

namespace TextFormat

/-- Numbers in messages and category keys: never an exponent, no `.0`. -/
def plain : TextFormat := ⟨fun _ => true, false, false, .up⟩

/-- Numbers of JSON texts: an exponent below `1e-5` and, as in `1e+16`, from `1e16` on. -/
def json : TextFormat := ⟨fun point => -5 < point && point ≤ 16, true, true, .even⟩

/-- Parameters of distributions in messages: an exponent below `1e-4` and from `1e16` on. -/
def parameter : TextFormat := ⟨fun point => -4 < point && point ≤ 16, true, false, .up⟩

end TextFormat

def Digits.positional (d : Digits) (keepsPoint : Bool) : List Char :=
  let n := d.digits.length
  if d.point ≤ 0 then '0' :: '.' :: (List.replicate d.point.natAbs '0' ++ d.digits)
  else if n ≤ d.point.toNat then
    d.digits ++ List.replicate (d.point.toNat - n) '0' ++ (if keepsPoint then ['.', '0'] else [])
  else d.digits.take d.point.toNat ++ '.' :: d.digits.drop d.point.toNat

/-- One digit, the others behind the point, and the exponent. -/
def Digits.scientific (d : Digits) (signsExponent : Bool) : List Char :=
  let mantissa := match d.digits with
    | [] => []
    | [c] => [c]
    | c :: cs => c :: '.' :: cs
  let sign := if signsExponent && 0 ≤ d.point - 1 then ['+'] else []
  mantissa ++ 'e' :: (sign ++ (toString (d.point - 1)).toList)

def signed (negative : Bool) (cs : List Char) : String :=
  String.ofList (if negative then '-' :: cs else cs)

def shortestText (f : WordFormat) (t : TextFormat) (word : Nat) : String :=
  match f.unpack word with
  | .nan => "NaN"
  | .infinite negative => signed negative ['i', 'n', 'f']
  | .finite negative significand exponent =>
    let d := shortestDigits f t.tie significand exponent
    signed negative (if t.positional d.point then d.positional t.keepsPoint else d.scientific t.signsExponent)

/-- A word in scientific form with `count` significant digits, the exact value rounded half to even. -/
def scientificText (f : WordFormat) (count word : Nat) : String :=
  match f.unpack word with
  | .nan => "nan"
  | .infinite negative => signed negative ['i', 'n', 'f']
  | .finite negative significand exponent =>
    let (num, den) := scaled 2 significand exponent
    signed negative ((significantDigits count num den).scientific false)

def plainText (x : Float) : String :=
  shortestText .double .plain x.toBits.toNat

/-- A single-precision number as messages and category keys write it. -/
def plainText32 (x : Float32) : String :=
  shortestText .single .plain x.toBits.toNat

end Scoring.Decimal
