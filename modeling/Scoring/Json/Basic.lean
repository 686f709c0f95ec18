import Scoring.Table

/-!
# Json — JSON values, and what a JSON text says

`Json` is a value: its objects hold each name once, and those read from a text list their names in ascending
order. `Raw` is what a text says before anybody has asked for a value: members in the order and number in
which they were written, and a mark in place of whatever cannot be a value. A reader that ignores a member also
ignores what is wrong inside it, so the two are kept apart; `Raw.json?` asks for the value and `Json.raw` writes
one down.
-/

namespace Scoring

/-- A JSON value. Whole numbers that fit 64 bits are kept apart from all other numbers. -/
inductive Json where
  | null
  | bool (b : Bool)
  | int (i : Int)
  | float (x : Float)
  | string (s : String)
  | array (items : List Json)
  | object (members : List (String × Json))
  deriving Inhabited

inductive Raw where
  | null
  | bool (b : Bool)
  | int (i : Int)
  | float (x : Float)
  | string (s : String)
  | array (items : List Raw)
  | object (members : List (String × Raw))
  /-- Text of the right form that is no value: a number too large for a double, a string with an unpaired
  surrogate, an object with such a name, an array or object nested too deep. -/
  | unusable
  deriving Inhabited

mutual

/-- The value of a text, if all of it is usable; of members with one name the last one counts. -/
def Raw.json? : Raw → Option Json
  | .null => some .null
  | .bool b => some (.bool b)
  | .int i => some (.int i)
  | .float x => some (.float x)
  | .string s => some (.string s)
  | .array items => (Raw.items? items).map .array
  | .object members => (Raw.members? members).map fun ms => .object (Table.ofList ms).entries
  | .unusable => none

def Raw.items? : List Raw → Option (List Json)
  | [] => some []
  | r :: rest => do
    let j ← r.json?
    let js ← Raw.items? rest
    some (j :: js)

def Raw.members? : List (String × Raw) → Option (List (String × Json))
  | [] => some []
  | (name, r) :: rest => do
    let j ← r.json?
    let js ← Raw.members? rest
    some ((name, j) :: js)

end

mutual

def Json.raw : Json → Raw
  | .null => .null
  | .bool b => .bool b
  | .int i => .int i
  | .float x => .float x
  | .string s => .string s
  | .array items => .array (Json.rawItems items)
  | .object members => .object (Json.rawMembers members)

def Json.rawItems : List Json → List Raw
  | [] => []
  | j :: rest => j.raw :: Json.rawItems rest

def Json.rawMembers : List (String × Json) → List (String × Raw)
  | [] => []
  | (name, j) :: rest => (name, j.raw) :: Json.rawMembers rest

end

namespace Json

/-- A double as a value; what is not a finite number is null. -/
def ofFloat (x : Float) : Json :=
  if x.isFinite then .float x else .null

/-- A value that may be absent; its absence is null. -/
def ofOption {α : Type} (f : α → Json) : Option α → Json
  | none => .null
  | some a => f a

def ofList {α : Type} (f : α → Json) (xs : List α) : Json :=
  .array (xs.map f)

def member? (name : String) : Json → Option Json
  | .object members => Table.lookup name members
  | _ => none

def items? : Json → Option (List Json)
  | .array items => some items
  | _ => none

def float? : Json → Option Float
  | .int i => some (Float.ofInt i)
  | .float x => some x
  | _ => none

/-- A whole number that is not negative. -/
def nat? : Json → Option Nat
  | .int (.ofNat n) => some n
  | _ => none

end Json

end Scoring
