import Scoring.Layout.Vectorizer

/-!
# Parameters — coefficients lined up with the feature vector

A model declares parameters and ties some of them to fields, one cell for each tie. `Layout.arrange` gives every
tied field a span, in the order of their names, and every parameter without a field an intercept span behind
them; at the same time it notes which parameter belongs to which index. An index without a parameter belongs to
a category that nothing is tied to, and has coefficient zero.
-/

namespace Scoring

/-- Ties a parameter to a field, or to one category of a field. -/
structure Cell where
  field : String
  category : Option String
  parameter : String
  deriving Repr, DecidableEq

/-- The parameters of a model in declaration order and their ties to fields. -/
structure Declarations where
  parameters : List String
  cells : List Cell
  deriving Repr, DecidableEq

abbrev Slots := List (Option String)

namespace Slots

def parameter? (s : Slots) (i : Nat) : Option String :=
  (s[i]?).join

def position? (s : Slots) (parameter : String) : Option Nat :=
  s.idxOf? (some parameter)

/-- The coefficient of an index: that of its parameter, zero where there is none. -/
def coefficient (betas : Table Float) (slot : Option String) : Float :=
  (slot.bind betas.find?).getD 0.0

def coefficients (s : Slots) (betas : Table Float) : List Float :=
  s.map (coefficient betas)

end Slots

structure Layout where
  spans : List Span
  slots : Slots

namespace Layout

def size (l : Layout) : Nat :=
  l.spans.foldr (fun s n => s.size + n) 0

/-! ## Declarations -/

def checkParameters : List String → List String → Outcome Unit
  | _, [] => .ok ()
  | seen, p :: rest =>
    if p ∈ seen then .error (.malformed (.repeatedParameter p)) else checkParameters (p :: seen) rest

/-- Every cell names a declared parameter that no cell before it names. -/
def checkCells (declared : List String) : List String → List Cell → Outcome Unit
  | _, [] => .ok ()
  | claimed, c :: rest =>
    if c.parameter ∉ declared then .error (.malformed (.undeclaredParameter c.field c.parameter))
    else if c.parameter ∈ claimed then .error (.unsupported (.sharedParameter c.parameter))
    else checkCells declared (c.parameter :: claimed) rest

/-- The cells of each field, in the order in which they are declared. -/
def cellsByField (cells : List Cell) : Table (List Cell) :=
  cells.foldl (fun t c => t.alter c.field fun cs => cs.getD [] ++ [c]) Table.empty

/-! ## Fields -/

/-- Put the parameter of a cell into the slot of its category. -/
def claim (field : String) (span : Span) (slots : Slots) (c : Cell) : Outcome Slots :=
  match c.category with
  | none => .error (.malformed (.cellWithoutCategory field))
  | some category =>
    match span.categoryPosition? category with
    | none => .error (.malformed (.undeclaredCategory category field))
    | some i =>
      -- two spellings of one category are the same category
      if (slots.parameter? i).isSome then .error (.malformed (.repeatedCell category field))
      else .ok (slots.set i (some c.parameter))

/-- The slots of a field's span: the one parameter of a continuous field, or the parameters of the categories
of a categorical one. -/
def slotsOf (field : String) (span : Span) (cells : List Cell) : Outcome Slots :=
  match span.kind, cells with
  | .continuous, [c] => .ok [some c.parameter]
  | .continuous, cells => .error (.unsupported (.continuousTerms field cells.length))
  | .categorical, cells => cells.foldlM (claim field span) (List.replicate span.size none)
  -- no field has a span of this kind
  | .intercept, _ => .ok (List.replicate span.size none)

/-- The layout of the fields that have cells, from an index on. -/
def placeFields (s : Scope) : Nat → List (String × List Cell) → Outcome Layout
  | _, [] => .ok ⟨[], []⟩
  | offset, (field, cells) :: rest => do
    let span ← Span.ofField (← s.resolve field) offset
    let slots ← slotsOf field span cells
    let behind ← placeFields s span.stop rest
    .ok ⟨span :: behind.spans, slots ++ behind.slots⟩

/-- The layout of intercepts, from an index on. -/
def placeIntercepts : Nat → List String → Layout
  | _, [] => ⟨[], []⟩
  | offset, p :: rest =>
    let behind := placeIntercepts (offset + 1) rest
    ⟨⟨offset, .intercept p⟩ :: behind.spans, some p :: behind.slots⟩

/-- The layout of a model's parameters: fields by name, then the parameters that no cell names, in declaration
order. -/
def arrange (d : Declarations) (s : Scope) : Outcome Layout := do
  checkParameters [] d.parameters
  checkCells d.parameters [] d.cells
  let fields ← placeFields s 0 (cellsByField d.cells).entries
  let claimed := d.cells.map (·.parameter)
  let intercepts := placeIntercepts fields.size (d.parameters.filter fun p => p ∉ claimed)
  let layout : Layout := ⟨fields.spans ++ intercepts.spans, fields.slots ++ intercepts.slots⟩
  -- never false, however the cells are declared
  if layout.size = layout.slots.length then .ok layout
  else .error (.malformed (.layoutSize layout.size layout.slots.length))

end Layout

end Scoring
