import Scoring.Decimal.Literal
import Scoring.Decimal.Text
import Scoring.Spec.Keyword
import Scoring.Text.Blank

/-!
# Scalar — a single value of a field

A value is an integer, a number in double or single precision, or a text. `key` decides when two values are
the same category of a field, and `coerce?` turns a value into what a field of a given type holds.
-/

namespace Scoring

open Spec (DataType)

/-- A single value read from a document or written as a literal. -/
inductive Scalar where
  | integer (i : Int64)
  | double (x : Float)
  | float (x : Float32)
  | string (s : String)
  deriving Inhabited

namespace Scalar

def text : Scalar → String
  | .integer i => toString i.toInt
  | .double x => Decimal.plainText x
  | .float x => Decimal.plainText32 x
  | .string s => s

/-- The value as a double; a text has none. -/
def toFloat? : Scalar → Option Float
  | .integer i => some (Float.ofInt i.toInt)
  | .double x => some x
  | .float x => some (Decimal.widen x)
  | .string _ => none

def toText? : Scalar → Option String
  | .string s => some s
  | _ => none

def isNumeric : Scalar → Bool
  | .string _ => false
  | _ => true

/-- The number that a value denotes: its own, or the one that its text writes between blanks. -/
def number? : Scalar → Option Float
  | .string s => Decimal.float? (Text.trim s)
  | v => v.toFloat?

/-- A number as category keys of fields of the given type write it. -/
def numberKey (type : DataType) (x : Float) : String :=
  match type with
  | .float => Decimal.plainText32 (Decimal.narrow x)
  | _ => Decimal.plainText x

/-- The key of a value taken as text: texts stand for themselves, numbers are written as doubles. -/
def textKey : Scalar → String
  | .string s => s
  | v => Decimal.plainText (v.toFloat?.getD (0.0 / 0.0))

/-- The key under which a field of the given type finds the value among its categories. Fields of numeric
type go by the number, all others by the text, and so do values that denote no number. -/
def key (v : Scalar) (type : DataType) : String :=
  if type.isNumeric then
    match v.number? with
    | some x => numberKey type x
    | none => v.textKey
  else v.textKey

/-- The value as a field of the given type holds it: a double for numeric types, else a text. -/
def coerce? (v : Scalar) (type : DataType) : Option Scalar :=
  if type.isNumeric then v.number?.map .double else some (.string (v.key type))

end Scalar

end Scoring
