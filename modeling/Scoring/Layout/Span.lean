import Scoring.Field.Scope
import Scoring.SparseVector

/-!
# Span — a stretch of the feature vector and what fills it

A field of numbers takes one index, a field of categories one for each declared category, and an intercept one
that always holds 1. `Span.entries` reads a record and gives what is to be stored in the span.
-/

namespace Scoring

inductive Encoding where
  | continuous (field : Field)
  | categorical (field : Field)
  | intercept (parameter : String)

inductive SpanKind where
  | continuous
  | categorical
  | intercept
  deriving Repr, DecidableEq

def SpanKind.name : SpanKind → String
  | continuous => "ContinuousSingleEntry"
  | categorical => "SparseCategorical1ofK"
  | intercept => "Intercept"

structure Span where
  offset : Nat
  encoding : Encoding

namespace Span

def kind (s : Span) : SpanKind :=
  match s.encoding with
  | .continuous _ => .continuous
  | .categorical _ => .categorical
  | .intercept _ => .intercept

def size (s : Span) : Nat :=
  match s.encoding with
  | .continuous _ => 1
  | .categorical field => field.categories.length
  | .intercept _ => 1

def stop (s : Span) : Nat :=
  s.offset + s.size

/-- The field that fills a span, if one does. -/
def field? (s : Span) : Option Field :=
  match s.encoding with
  | .continuous field | .categorical field => some field
  | .intercept _ => none

/-- The name of the field, or of the parameter that is the intercept. -/
def name (s : Span) : String :=
  match s.encoding with
  | .continuous field | .categorical field => field.name
  | .intercept parameter => parameter

/-- The first category of a list whose key is among the keys of those before it. -/
def repeated? (key : String → String) : List String → List String → Option String
  | _, [] => none
  | seen, c :: cs => if key c ∈ seen then some c else repeated? key (key c :: seen) cs

/-- The span of a field. Continuous fields have to be numeric, categorical fields have to declare categories
that differ from each other. -/
def ofField (f : Field) (offset : Nat) : Outcome Span :=
  match f.optype with
  | .continuous =>
    if f.dataType.isNumeric then .ok ⟨offset, .continuous f⟩
    else .error (.unsupported (.continuousType f.name f.dataType))
  | .categorical =>
    -- categories are those of the raw field, so it is the raw field that is at fault
    if f.categories.isEmpty then .error (.malformed (.noCategories f.raw.name))
    else match repeated? (fun c => (Scalar.string c).key f.raw.dataType) [] f.categories with
      | some c => .error (.malformed (.repeatedCategory f.raw.name c))
      | none => .ok ⟨offset, .categorical f⟩
  | .ordinal => .error (.unsupported (.optype f.name .ordinal))

/-- The position of a key among the declared categories of a field. -/
def position? (f : Field) (key : String) : Option Nat :=
  f.categoryKeys.idxOf? key

/-- The position of a category within the span of a categorical field. -/
def categoryPosition? (s : Span) (category : String) : Option Nat :=
  match s.encoding with
  | .categorical f => position? f ((Scalar.string category).key f.raw.dataType)
  | _ => none

/-- The number that a continuous field has in a record. -/
def number (f : Field) (r : Record) : Outcome Float :=
  match f.values r with
  | [] => .error (.mismatch (.continuousMissing f.name))
  | [v] =>
    match (v.coerce? f.dataType).bind Scalar.toFloat? with
    | some x => .ok x
    | none => .error (.mismatch (.continuousText f.name v))
  | vs => .error (.mismatch (.continuousRepeated f.name vs.length))

/-- The positions of the categories that a record shows for a field, each once, in the order in which they are
first seen. -/
def observed (f : Field) (r : Record) : Outcome (List Nat) := do
  let positions ← (f.values r).mapM fun v =>
    match position? f (v.key f.raw.dataType) with
    | some i => Except.ok i
    | none => .error (.mismatch (.undeclaredCategory v f.name))
  .ok positions.eraseDups

def entries (s : Span) (r : Record) : Outcome (List (Nat × Float)) :=
  match s.encoding with
  | .intercept _ => .ok [(s.offset, 1.0)]
  | .continuous f => do .ok [(s.offset, ← number f r)]
  | .categorical f => do .ok ((← observed f r).map fun i => (s.offset + i, 1.0))

end Span

end Scoring
