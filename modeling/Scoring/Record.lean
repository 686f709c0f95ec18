import Scoring.Json.Basic
import Scoring.Scalar.Basic

/-!
# Record — a document as its fields show it

Scoring sees a document only through the values of its fields: a record answers for every name with the list
of its values, which is empty when the field is absent. A JSON object is a record, and so is a table of
values put together by hand.
-/

namespace Scoring

namespace Scalar

/-- The scalar of a JSON value; null, arrays and objects have none. -/
def ofJson? : Json → Option Scalar
  | .int i =>
    match Decimal.int64OfInt? i with
    | some k => some (.integer k)
    | none => some (.double (Float.ofInt i))
  | .float x => some (.double x)
  | .string s => some (.string s)
  | .bool b => some (.string (if b then "true" else "false"))
  | _ => none

/-- The scalar that a JSON value is: a number or a text. -/
def ofScalarJson? : Json → Option Scalar
  | .bool _ => none
  | j => ofJson? j

end Scalar

def Record : Type := String → List Scalar

namespace Record

def get (r : Record) (field : String) : List Scalar :=
  r field

/-- A JSON document: a scalar is a single value, an array one for each scalar in it, null is no value. What
is not an object has no fields. -/
def ofJson (document : Json) : Record := fun field =>
  match document.member? field with
  | none | some .null => []
  | some (.array items) => items.filterMap Scalar.ofJson?
  | some j => (Scalar.ofJson? j).toList

def ofTable (t : Table (List Scalar)) : Record := fun field =>
  (t.find? field).getD []

end Record

/-! ## Tables of values -/

namespace Table

def add (t : Table (List Scalar)) (field : String) (v : Scalar) : Table (List Scalar) :=
  t.alter field fun vs => vs.getD [] ++ [v]

end Table

end Scoring
