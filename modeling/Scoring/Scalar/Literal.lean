import Scoring.Fault

/-!
# Literal — scalars written in a model document

A literal is read according to the declared type of its field, without the blanks around it.
-/

namespace Scoring

open Spec (DataType)

namespace Scalar

def parse (literal : String) (type : DataType) : Outcome Scalar :=
  let literal := Text.trim literal
  match type with
  | .double =>
    match Decimal.float? literal with
    | some x => .ok (.double x)
    | none => .error (.malformed (.notDouble literal))
  | .float =>
    match Decimal.float32? literal with
    | some x => .ok (.float x)
    | none => .error (.malformed (.notFloat literal))
  | .integer =>
    match Decimal.int64? literal with
    | some i => .ok (.integer i)
    | none => .error (.malformed (.notInteger literal))
  | .string => .ok (.string literal)
  | .boolean | .date => .error (.unsupported (.literalType type))

end Scalar

end Scoring
