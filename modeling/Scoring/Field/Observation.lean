import Scoring.Field.Scope

/-!
# Observation — one value for each field that a model reads

Trees and naive Bayes models do not look at vectors but at fields. An `Intake` is the set of fields that a model
reads, each resolved; it turns a record into an `Observation`, which gives each field one value of the field's
own type or says that the value is missing.
-/

namespace Scoring

/-- A value for each of some fields; nothing for a field whose value is missing. -/
abbrev Observation := Table (Option Scalar)

namespace Observation

/-- The value of a field, if it is there. -/
def value? (o : Observation) (field : String) : Option Scalar :=
  (o.find? field).join

/-- Succeeds when all expected fields are there and no others. The expected fields are counted as often as they
are listed. -/
def check (o : Observation) (expected : List String) : Outcome Unit :=
  match expected.find? fun n => !o.contains n with
  | some n => .error (.mismatch (.noField n))
  | none =>
    if expected.length = o.size then .ok ()
    else .error (.mismatch (.extraFields o.names expected.length))

end Observation

/-- The value of a field in a record: none when it is missing, an error when there are several or when it is
not of the field's type. -/
def Field.observe (f : Field) (r : Record) : Outcome (Option Scalar) :=
  match f.values r with
  | [] => .ok none
  | [v] =>
    match v.coerce? f.dataType with
    | some w => .ok (some w)
    | none => .error (.mismatch (.dataType f.name v f.dataType))
  | vs => .error (.mismatch (.repeatedValue f.name vs.length))

/-- The fields that a model reads, by name. -/
abbrev Intake := Table Field

namespace Intake

def ofNames (s : Scope) (names : List String) : Outcome Intake := do
  let fields ← names.mapM s.resolve
  .ok (Table.ofList (fields.map fun f => (f.name, f)))

def observe (i : Intake) (r : Record) : Outcome Observation := do
  let values ← i.entries.mapM fun (name, f) => do .ok (name, ← f.observe r)
  .ok (Table.ofList values)

end Intake

end Scoring
