import Scoring.Decimal.Binary

/-!
# Literal — numbers read from text

A number literal is `coefficient · 10 ^ exponent` with a sign, or one of the words for infinity and for what
is not a number. It becomes a floating-point word by one correct rounding of its exact value.
-/

namespace Scoring.Decimal

/-- An exact decimal number without its sign. -/
structure Scientific where
  coefficient : Nat
  exponent : Int
  deriving Repr, DecidableEq

inductive Literal where
  | nan
  | infinite (negative : Bool)
  | finite (negative : Bool) (magnitude : Scientific)
  deriving Repr, DecidableEq

def natOfDigits (ds : List Char) : Nat :=
  ds.foldl (fun n d => 10 * n + (d.toNat - '0'.toNat)) 0

/-- The text behind a leading sign, and whether that sign is a minus. -/
def splitSign : List Char → Bool × List Char
  | '-' :: cs => (true, cs)
  | '+' :: cs => (false, cs)
  | cs => (false, cs)

/-- Digits with an optional sign in front, and nothing else. -/
def signedDigits? (cs : List Char) : Option Int :=
  let (negative, ds) := splitSign cs
  if ds.isEmpty || !ds.all Char.isDigit then none
  else some (if negative then -(natOfDigits ds) else natOfDigits ds)

/-- The exponent part: nothing, or `e` and a signed whole number. -/
def exponentPart? : List Char → Option Int
  | [] => some 0
  | c :: cs => if c = 'e' || c = 'E' then signedDigits? cs else none

/-- Digits with at most one point among them, at least one digit in all, then the exponent part. -/
def Scientific.ofChars? (cs : List Char) : Option Scientific :=
  let (whole, rest) := cs.span Char.isDigit
  let (fraction, rest) := match rest with
    | '.' :: rest => rest.span Char.isDigit
    | _ => ([], rest)
  if whole.isEmpty && fraction.isEmpty then none
  else do
    let e ← exponentPart? rest
    some ⟨natOfDigits (whole ++ fraction), e - fraction.length⟩

/-- A signed decimal number, `inf`, `infinity` or `nan` in letters of either case. -/
def Literal.ofString? (s : String) : Option Literal :=
  let (negative, cs) := splitSign s.toList
  let word := cs.map Char.toLower
  if word = ['n', 'a', 'n'] then some .nan
  else if word = ['i', 'n', 'f'] || word = ['i', 'n', 'f', 'i', 'n', 'i', 't', 'y'] then
    some (.infinite negative)
  else (Scientific.ofChars? cs).map (.finite negative)

/-- The word nearest to the number. Beyond `10 ^ 400` every format has infinity and below `10 ^ -400` zero,
so that no power of ten larger than that is ever computed. -/
def Scientific.word (f : WordFormat) (x : Scientific) : Nat :=
  let digits : Int := (Nat.toDigits 10 x.coefficient).length
  if x.coefficient = 0 || x.exponent + digits < -400 then 0
  else if 400 < x.exponent + digits then f.infinity
  else
    let (num, den) := scaled 10 x.coefficient x.exponent
    f.nearest num den

/-- The word of a literal; `quiet` is the word of what is not a number. -/
def Literal.word (f : WordFormat) : Literal → Nat
  | .nan => f.infinity + bitValue (f.fractionBits - 1)
  | .infinite negative => (if negative then f.signBit else 0) + f.infinity
  | .finite negative x => (if negative then f.signBit else 0) + x.word f

def Literal.toFloat (l : Literal) : Float :=
  Float.ofBits (l.word .double).toUInt64

def Literal.toFloat32 (l : Literal) : Float32 :=
  Float32.ofBits (l.word .single).toUInt32

def float? (s : String) : Option Float :=
  (Literal.ofString? s).map Literal.toFloat

def float32? (s : String) : Option Float32 :=
  (Literal.ofString? s).map Literal.toFloat32

def int64OfInt? (i : Int) : Option Int64 :=
  if Int64.minValue.toInt ≤ i && i ≤ Int64.maxValue.toInt then some (Int64.ofInt i) else none

/-- The 64-bit integer that a text writes: digits with an optional sign, within range. -/
def int64? (s : String) : Option Int64 :=
  (signedDigits? s.toList).bind int64OfInt?

end Scoring.Decimal
