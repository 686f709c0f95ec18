/-!
# Truth — answers that may be unknown

An answer is `some true`, `some false`, or `none` when it is not known. Conjunction and disjunction follow
strong Kleene logic: an unknown part matters only as long as the known parts do not decide.
-/

namespace Scoring

abbrev Truth := Option Bool

namespace Truth

/-- Goes through the answers until one is the decisive one. What remains unknown is unknown in the end, unless a later
answer decides. -/
def untilDecided (decisive : Bool) : Bool → List Truth → Truth
  | unknown, [] => if unknown then none else some !decisive
  | _, none :: rest => untilDecided decisive true rest
  | unknown, some b :: rest => if b = decisive then some decisive else untilDecided decisive unknown rest

def all (ts : List Truth) : Truth :=
  untilDecided false false ts

def any (ts : List Truth) : Truth :=
  untilDecided true false ts

def parityFrom : Bool → List Truth → Truth
  | result, [] => some result
  | _, none :: _ => none
  | result, some b :: rest => parityFrom (result != b) rest

def parity (ts : List Truth) : Truth :=
  parityFrom false ts

def firstKnown (ts : List Truth) : Truth :=
  ts.findSome? id

end Truth

end Scoring
