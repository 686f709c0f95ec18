import Scoring.Fault
import Scoring.Record

/-!
# Field — a model's field traced back to its raw input

A model may refer to a raw field or to one derived from it. Either way its values are those of the raw field,
or, where that has none, the first of the replacements on the way. `values_of_present`, `values_of_missing`
and `values_of_absent` say just that.
-/

namespace Scoring

open Spec (DataField DataType OpType)

structure Field where
  name : String
  /-- The field of the data dictionary that supplies the values. -/
  raw : DataField
  optype : OpType
  dataType : DataType
  /-- What stands in for a missing value, the replacement nearest to the raw field first. -/
  replacements : List Scalar

namespace Field

def replace (values : List Scalar) (replacement : Scalar) : List Scalar :=
  if values.isEmpty then [replacement] else values

def values (f : Field) (r : Record) : List Scalar :=
  f.replacements.foldl replace (r.get f.raw.name)

def categories (f : Field) : List String :=
  f.raw.values

def categoryKeys (f : Field) : List String :=
  f.categories.map fun c => (Scalar.string c).key f.raw.dataType

theorem foldl_replace_of_ne_nil {vs : List Scalar} (h : vs ≠ []) (ws : List Scalar) :
    ws.foldl replace vs = vs := by
  induction ws with
  | nil => rfl
  | cons w ws ih =>
    have : replace vs w = vs := by simp [replace, h]
    rw [List.foldl_cons, this, ih]

theorem values_of_present (f : Field) (r : Record) (h : r.get f.raw.name ≠ []) :
    f.values r = r.get f.raw.name :=
  foldl_replace_of_ne_nil h _

/-- Where there are none, the first replacement is the only value. -/
theorem values_of_missing (f : Field) (r : Record) {w : Scalar} {ws : List Scalar}
    (h : r.get f.raw.name = []) (hw : f.replacements = w :: ws) : f.values r = [w] := by
  simp only [values, h, hw, List.foldl_cons]
  exact foldl_replace_of_ne_nil (by simp [replace]) ws

/-- Where there are neither values nor replacements, there is no value. -/
theorem values_of_absent (f : Field) (r : Record) (h : r.get f.raw.name = [])
    (hw : f.replacements = []) : f.values r = [] := by
  simp [values, h, hw]

end Field

end Scoring
