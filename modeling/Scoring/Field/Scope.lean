import Scoring.Field.Basic
import Scoring.Scalar.Literal

/-!
# Scope — the fields that a model can refer to

A scope holds the data dictionary, the derived fields in sight and the model's mining schema. `resolve` follows
a name through derived fields until it reaches the dictionary. It visits no derived field twice, so it ends on
every scope, also where derived fields refer to each other in a circle.
-/

namespace Scoring

open Spec

structure Scope where
  dictionary : DataDictionary
  /-- Derived fields; of several with one name the last one counts. -/
  derived : List DerivedField
  /-- Supplies replacements for missing values, when given. -/
  schema : Option MiningSchema

namespace Scope

def derived? (name : String) (ds : List DerivedField) : Option DerivedField :=
  ds.reverse.find? fun d => d.name == name

def without (name : String) (ds : List DerivedField) : List DerivedField :=
  ds.filter fun d => d.name != name

/-- A derived field that was found is gone once its name is taken away. -/
theorem length_without_lt {name : String} {ds : List DerivedField} {d : DerivedField}
    (h : derived? name ds = some d) : (without name ds).length < ds.length := by
  refine List.length_filter_lt_length_iff_exists.2 ⟨d, ?_, ?_⟩
  · simpa using List.mem_of_find?_eq_some h
  · simpa using List.find?_some h

/-- The source of a derived field and what replaces a missing value of it. The only form of derivation is: the
source, or a constant where the source is missing. -/
def derivation (d : DerivedField) : Outcome (String × Scalar) :=
  let unsupported := Fault.unsupported (.derivation d.name d.expression.kind)
  match d.expression with
  -- if the source is missing, the constant, else the source
  | .apply "if" [.apply "isMissing" [.fieldRef source], constant, .fieldRef again] =>
    if again = source then
      match constant with
      | .constant (some literal) => do .ok (source, ← Scalar.parse literal d.dataType)
      | .constant none => .error (.unsupported (.noReplacement d.name))
      | _ => .error unsupported
    else .error unsupported
  | _ => .error unsupported

/-- The raw field behind a name and the replacements on the way, the one nearest to the raw field first.
`unvisited` are the derived fields that may still be passed through. -/
def trace (s : Scope) (unvisited : List DerivedField) (name : String) :
    Outcome (DataField × List Scalar) :=
  match s.dictionary.field? name with
  | some raw => .ok (raw, [])
  | none =>
    match h : derived? name unvisited with
    | some d =>
      have := length_without_lt h
      do
        let (source, replacement) ← derivation d
        let (raw, replacements) ← trace s (without name unvisited) source
        -- replacements nearer to the raw field come first
        .ok (raw, replacements ++ [replacement])
    | none =>
      -- a name that was passed through before closes a circle
      match derived? name s.derived with
      | some _ => .error (.malformed (.cycle name))
      | none => .error (.malformed (.undeclaredField name))
termination_by unvisited.length

/-- The literal that the mining schema puts in place of a missing value of a raw field. -/
def replacement? (s : Scope) (raw : DataField) : Option String :=
  s.schema.bind fun schema => (schema.field? raw.name).bind (·.replacement)

/-- The value that the mining schema supplies for a raw field, if it supplies one. -/
def supplied (s : Scope) (raw : DataField) : Outcome (List Scalar) :=
  match s.replacement? raw with
  | some literal => do .ok [← Scalar.parse literal raw.dataType]
  | none => .ok []

/-- The types that a name is declared with. The dictionary comes before the derived fields. -/
def declaredTypes (s : Scope) (name : String) (raw : DataField) : OpType × DataType :=
  match s.dictionary.field? name, derived? name s.derived with
  | none, some d => (d.optype, d.dataType)
  | _, _ => (raw.optype, raw.dataType)

/-- The field that a name refers to. A name of the dictionary is that raw field; any other is a derived field,
which keeps the type it is declared with. -/
def resolve (s : Scope) (name : String) : Outcome Field := do
  let (raw, replacements) ← s.trace s.derived name
  let first ← s.supplied raw
  let (optype, dataType) := s.declaredTypes name raw
  .ok ⟨name, raw, optype, dataType, first ++ replacements⟩

end Scope

end Scoring
