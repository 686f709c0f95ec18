import Scoring.Field.Observation
import Scoring.Truth

/-!
# Condition — predicates made ready for observations

A condition is a predicate whose literals have been read according to the types of the fields that they are
compared with. Evaluating it never fails: the answer is unknown where a field that decides is missing.
-/

namespace Scoring

open Spec

inductive Comparison where
  | equal
  | notEqual
  | lessThan
  | lessOrEqual
  | greaterThan
  | greaterOrEqual
  deriving Repr, DecidableEq

namespace Comparison

def isOrder : Comparison → Bool
  | equal | notEqual => false
  | lessThan | lessOrEqual | greaterThan | greaterOrEqual => true

def numbers : Comparison → Float → Float → Bool
  | equal, a, b => a == b
  | notEqual, a, b => a != b
  | lessThan, a, b => a < b
  | lessOrEqual, a, b => a ≤ b
  | greaterThan, a, b => a > b
  | greaterOrEqual, a, b => a ≥ b

/-- The comparison of two texts, which have no order. -/
def texts : Comparison → String → String → Truth
  | equal, a, b => some (a == b)
  | notEqual, a, b => some (a != b)
  | _, _, _ => none

/-- The comparison of a value with an operand; unknown when one is a number and the other a text. -/
def scalars (c : Comparison) (value operand : Scalar) : Truth :=
  match value.toFloat?, operand.toFloat? with
  | some a, some b => some (c.numbers a b)
  | _, _ =>
    match value.toText?, operand.toText? with
    | some a, some b => c.texts a b
    | _, _ => none

end Comparison

inductive Condition where
  | always
  | never
  | compare (field : String) (comparison : Comparison) (operand : Scalar)
  | isMissing (field : String)
  | isNotMissing (field : String)
  /-- The members are keys; `negated` turns the answer around. -/
  | inSet (field : String) (type : DataType) (members : List String) (negated : Bool)
  | and (parts : List Condition)
  | or (parts : List Condition)
  | xor (parts : List Condition)
  | surrogate (parts : List Condition)
  deriving Inhabited

namespace Condition

/-! ## Making conditions -/

def fieldType (i : Intake) (field : String) : Outcome DataType :=
  match i.find? field with
  | some f => .ok f.dataType
  | none => .error (.malformed (.untestableField field))

/-- A comparison with a literal. Numbers of any type are compared as doubles, so that an integer may be compared
with a fraction. -/
def ofLiteral (field : String) (type : DataType) (operator : SimpleOperator) (comparison : Comparison)
    (value : Option String) : Outcome Condition :=
  match value with
  | none => .error (.malformed (.testWithoutValue operator field))
  | some literal =>
    if comparison.isOrder && !type.isNumeric then .error (.unsupported (.orderOnText operator field))
    else do
      let operand ← Scalar.parse literal (if type.isNumeric then .double else type)
      -- back to the type of the field, where the literal has a value of that type
      match operand.coerce? type with
      | some operand => .ok (.compare field comparison operand)
      | none => .error (.malformed (.operand literal))

def ofSimple (field : String) (type : DataType) (operator : SimpleOperator) (value : Option String) :
    Outcome Condition :=
  match operator with
  | .isMissing => .ok (.isMissing field)
  | .isNotMissing => .ok (.isNotMissing field)
  | .equal => ofLiteral field type operator .equal value
  | .notEqual => ofLiteral field type operator .notEqual value
  | .lessThan => ofLiteral field type operator .lessThan value
  | .lessOrEqual => ofLiteral field type operator .lessOrEqual value
  | .greaterThan => ofLiteral field type operator .greaterThan value
  | .greaterOrEqual => ofLiteral field type operator .greaterOrEqual value

def ofCompound (operator : CompoundOperator) (parts : List Condition) : Condition :=
  match operator with
  | .and => .and parts
  | .or => .or parts
  | .xor => .xor parts
  | .surrogate => .surrogate parts

mutual

/-- The condition of a predicate whose fields are among those of the intake. -/
def ofPredicate (i : Intake) : Predicate → Outcome Condition
  | .always => .ok .always
  | .never => .ok .never
  | .simple field operator value => do
    let type ← fieldType i field
    ofSimple field type operator value
  | .set field operator values => do
    let type ← fieldType i field
    .ok (.inSet field type (values.map fun v => (Scalar.string v).key type) (operator == .isNotIn))
  | .compound operator parts => do
    .ok (ofCompound operator (← ofPredicates i parts))

def ofPredicates (i : Intake) : List Predicate → Outcome (List Condition)
  | [] => .ok []
  | p :: rest => do
    let c ← ofPredicate i p
    let cs ← ofPredicates i rest
    .ok (c :: cs)

end

/-! ## Evaluation -/

mutual

def evaluate (o : Observation) : Condition → Truth
  | .always => some true
  | .never => some false
  | .compare field comparison operand => (o.value? field).bind fun v => comparison.scalars v operand
  | .isMissing field => some (o.value? field).isNone
  | .isNotMissing field => some (o.value? field).isSome
  | .inSet field type members negated =>
    (o.value? field).map fun v => decide (v.key type ∈ members) != negated
  | .and parts => Truth.all (evaluateAll o parts)
  | .or parts => Truth.any (evaluateAll o parts)
  | .xor parts => Truth.parity (evaluateAll o parts)
  | .surrogate parts => Truth.firstKnown (evaluateAll o parts)

def evaluateAll (o : Observation) : List Condition → List Truth
  | [] => []
  | c :: rest => c.evaluate o :: evaluateAll o rest

end

end Condition

/-! ## Fields -/

mutual

/-- The fields that a predicate tests, as often as it tests them. -/
def Spec.Predicate.fields : Predicate → List String
  | .always | .never => []
  | .simple field _ _ | .set field _ _ => [field]
  | .compound _ parts => Spec.Predicate.fieldsOfAll parts

def Spec.Predicate.fieldsOfAll : List Predicate → List String
  | [] => []
  | p :: rest => p.fields ++ Spec.Predicate.fieldsOfAll rest

end

/-- The fields that a predicate tests, each once and ascending. -/
def Spec.Predicate.testedFields (p : Predicate) : List String :=
  (Table.ofNames p.fields).names

end Scoring
