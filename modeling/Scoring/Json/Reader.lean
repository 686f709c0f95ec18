import Scoring.Json.Token

/-!
# Reader — JSON texts

The reader takes one token after the other and keeps the open arrays and objects on a stack, so the form of a
text is checked in one pass over its tokens. `Raw.ofString?` gives what a text says, `Json.ofString?` its
value.
-/

namespace Scoring

/-- The deepest nesting of arrays and objects that values may have. -/
def maxDepth : Nat := 127

namespace Reader

/-- An array or object that is not closed yet, with its parts last first. -/
inductive Frame where
  | array (items : List Raw)
  | object (members : List (Option String × Raw))
  /-- An object that waits for the value of the member of this name. -/
  | member (members : List (Option String × Raw)) (name : Option String)

inductive Expecting where
  | value
  /-- A value, or the end of an array without items. -/
  | item
  | name
  /-- The name of a member, or the end of an object without members. -/
  | firstName
  | colon
  | more
  /-- Nothing: the value is complete. -/
  | done (r : Raw)

/-- Where the reader stands: what it expects, inside which arrays and objects, the innermost first. -/
structure State where
  expecting : Expecting
  frames : List Frame

/-- The object with the given members, if all have a usable name. -/
def object (members : List (Option String × Raw)) : Raw :=
  match members.mapM fun (name, r) => name.map (·, r) with
  | some ms => .object ms.reverse
  | none => .unusable

def place (r : Raw) : List Frame → Option State
  | [] => some ⟨.done r, []⟩
  | .array items :: frames => some ⟨.more, .array (r :: items) :: frames⟩
  | .member members name :: frames => some ⟨.more, .object ((name, r) :: members) :: frames⟩
  | .object _ :: _ => none

/-- Close the innermost array or object; below `depth` it is no value. -/
def close (depth : Nat) (r : Raw) (frames : List Frame) : Option State :=
  place (if depth ≤ frames.length then .unusable else r) frames

def step (depth : Nat) (s : State) (t : Token) : Option State :=
  match s.expecting, t, s.frames with
  -- a value begins; scalars and strings are complete at once
  | .value, .scalar r, frames | .item, .scalar r, frames => place r frames
  | .value, .text s, frames | .item, .text s, frames =>
    place (match s with | some s => .string s | none => .unusable) frames
  | .value, .openArray, frames | .item, .openArray, frames => some ⟨.item, .array [] :: frames⟩
  | .value, .openObject, frames | .item, .openObject, frames => some ⟨.firstName, .object [] :: frames⟩
  -- nothing inside
  | .item, .closeArray, .array items :: frames => close depth (.array items.reverse) frames
  | .firstName, .closeObject, .object members :: frames => close depth (object members) frames
  -- the name of a member and its colon
  | .firstName, .text name, .object members :: frames => some ⟨.colon, .member members name :: frames⟩
  | .name, .text name, .object members :: frames => some ⟨.colon, .member members name :: frames⟩
  | .colon, .colon, frames => some ⟨.value, frames⟩
  -- behind a value
  | .more, .comma, .array items :: frames => some ⟨.value, .array items :: frames⟩
  | .more, .comma, .object members :: frames => some ⟨.name, .object members :: frames⟩
  | .more, .closeArray, .array items :: frames => close depth (.array items.reverse) frames
  | .more, .closeObject, .object members :: frames => close depth (object members) frames
  | _, _, _ => none

/-- The value that the tokens write, if they write one. -/
def read? (depth : Nat) (tokens : List Token) : Option Raw :=
  match tokens.foldlM (step depth) ⟨.value, []⟩ with
  | some ⟨.done r, _⟩ => some r
  | _ => none

end Reader

/-- What a JSON text says; arrays and objects nested deeper than `depth` are unusable. -/
def Raw.ofText? (depth : Nat) (text : String) : Option Raw := do
  Reader.read? depth (← Token.scan text.toList)

def Raw.ofString? (text : String) : Option Raw :=
  Raw.ofText? maxDepth text

def Json.ofString? (text : String) : Option Json := do
  (← Raw.ofString? text).json?

end Scoring
