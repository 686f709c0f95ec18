import Scoring.Arithmetic
import Scoring.Json.Basic

/-!
# Explanation — a predicted class and the numbers behind it
-/

namespace Scoring

structure Explanation where
  label : String
  probabilities : Table Float
  scores : Table Float
  terms : Table Float
  /-- The tree nodes on the way, the root first. -/
  path : List String

namespace Explanation

def ofLabel (label : String) : Explanation :=
  ⟨label, .empty, .empty, .empty, []⟩

/-- The term with the greatest absolute value, the last one by name when there are several. -/
def topTerm? (e : Explanation) : Option (String × Float) :=
  e.terms.entries.foldl
    (fun best t =>
      match best with
      | none => some t
      | some b => if Arithmetic.compare t.2.abs b.2.abs = .lt then some b else some t)
    none

def tableJson (t : Table Float) : Json :=
  .object (t.entries.map fun e => (e.1, .ofFloat e.2))

/-- The explanation as a JSON value; parts that are empty are left out. -/
def toJson (e : Explanation) : Json :=
  .object (
    ("class", .string e.label) ::
    (if e.path.isEmpty then [] else [("path", .ofList .string e.path)]) ++
    (if e.probabilities.isEmpty then [] else [("probs", tableJson e.probabilities)]) ++
    (if e.scores.isEmpty then [] else [("scores", tableJson e.scores)]) ++
    (if e.terms.isEmpty then [] else [("terms", tableJson e.terms)]))

end Explanation

end Scoring
