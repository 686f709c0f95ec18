import Scoring.Spec.Keyword

/-!
# Field — the fields of a model document

A data dictionary declares the raw fields, derived fields compute one field from another, and a model's mining
schema says which fields it uses and what replaces a missing value.
-/

namespace Scoring.Spec

structure DataField where
  name : String
  optype : OpType
  dataType : DataType
  values : List String
  deriving Repr, DecidableEq

namespace DataField

def continuous (name : String) (dataType : DataType) : DataField :=
  ⟨name, .continuous, dataType, []⟩

def categorical (name : String) (dataType : DataType) (values : List String) : DataField :=
  ⟨name, .categorical, dataType, values⟩

end DataField

structure DataDictionary where
  fields : List DataField
  deriving Repr, DecidableEq, Inhabited

def DataDictionary.field? (d : DataDictionary) (name : String) : Option DataField :=
  d.fields.find? fun f => f.name == name

inductive Expression where
  | apply (function : String) (arguments : List Expression)
  | constant (value : Option String)
  | fieldRef (field : String)
  | unsupported
  deriving Repr, Inhabited

def Expression.kind : Expression → String
  | .apply _ _ => "Apply"
  | .constant _ => "Constant"
  | .fieldRef _ => "FieldRef"
  | .unsupported => "unsupported expression"

structure DerivedField where
  name : String
  optype : OpType
  dataType : DataType
  expression : Expression
  deriving Repr

/-- The field that is `source`, or `literal` where `source` is missing. -/
def DerivedField.replacingMissing (name source : String) (optype : OpType) (dataType : DataType)
    (literal : String) : DerivedField :=
  ⟨name, optype, dataType,
    .apply "if" [.apply "isMissing" [.fieldRef source], .constant (some literal), .fieldRef source]⟩

/-- A list of derived fields, global or local to a model. -/
structure TransformationDictionary where
  fields : List DerivedField
  deriving Repr, Inhabited

structure MiningField where
  name : String
  usage : UsageType
  replacement : Option String
  deriving Repr, DecidableEq

namespace MiningField

def active (name : String) : MiningField := ⟨name, .active, none⟩

def target (name : String) : MiningField := ⟨name, .target, none⟩

/-- The same field with a replacement for missing values. -/
def withReplacement (f : MiningField) (literal : String) : MiningField :=
  { f with replacement := some literal }

end MiningField

structure MiningSchema where
  fields : List MiningField
  deriving Repr, DecidableEq, Inhabited

namespace MiningSchema

def field? (s : MiningSchema) (name : String) : Option MiningField :=
  s.fields.find? fun f => f.name == name

/-- The name of the first target field, or of the first predicted one when no field is marked as target. -/
def target? (s : MiningSchema) : Option String :=
  ((s.fields.find? fun f => f.usage = .target).or
    (s.fields.find? fun f => f.usage = .predicted)).map (·.name)

end MiningSchema

end Scoring.Spec
