import Scoring.Engine

/-!
# Registry — scorers under names

A registry hands out handles on scorers. Storing a scorer under a name that is taken replaces the entry; a
handle given out before stays what it is. A store that fails leaves the registry as it was, because it produces
no new registry.
-/

namespace Scoring

/-- A scorer together with the number of the store that produced it; two handles are the same when their numbers
are. -/
structure Handle where
  serial : Nat
  scorer : Scorer

structure Registry where
  models : Table Handle
  stores : Nat

namespace Registry

open Spec (Document)

/-- The registry without scorers. -/
def empty : Registry := ⟨.empty, 0⟩

def put (g : Registry) (name : String) (s : Scorer) : Registry × Handle :=
  let h : Handle := ⟨g.stores, s⟩
  (⟨g.models.insert name h, g.stores + 1⟩, h)

/-- Compile a document and store its scorer under a name. -/
def insert (g : Registry) (name : String) (d : Document) : Outcome (Registry × Handle) := do
  .ok (g.put name (← Compile.document d))

/-- Read, compile and store the document of a text. -/
def load (g : Registry) (name text : String) : Outcome (Registry × Handle) := do
  g.insert name (← Engine.parse text)

/-- Read, compile and store the document of a file; nothing stands for a file that does not exist. -/
def loadFile (g : Registry) (name : String) (content : Option String) : Outcome (Registry × Handle) :=
  match content with
  | some text => g.load name text
  | none => .error .missingFile

def get? (g : Registry) (name : String) : Option Handle :=
  g.models.find? name

/-- The registry without a name, and whether the name was there. -/
def unload (g : Registry) (name : String) : Registry × Bool :=
  ({ g with models := g.models.erase name }, g.models.contains name)

def contains (g : Registry) (name : String) : Bool :=
  g.models.contains name

/-- The names, ascending. -/
def names (g : Registry) : List String :=
  g.models.names

def size (g : Registry) : Nat :=
  g.models.size

def isEmpty (g : Registry) : Bool :=
  g.models.isEmpty

end Registry

end Scoring
