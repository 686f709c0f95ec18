import Scoring.Fault
import Scoring.Scalar.Basic

/-!
# Target — the two classes of a binary classifier

A binary classifier models one category of its target field; the other class is the one declared value with
another key.
-/

namespace Scoring

open Spec (DataField)

/-- The class that the coefficients model, and the other one. -/
structure Classes where
  positive : String
  negative : String
  deriving Repr, DecidableEq

namespace Classes

def modeled (categories : List String) (target : DataField) : Outcome String :=
  match categories.eraseDups with
  | [positive] => .ok positive
  | [] => .error (.malformed (.noModeledCategory target.name))
  | several => .error (.unsupported (.modeledCategories several.length))

def key (target : DataField) (category : String) : String :=
  (Scalar.string category).key target.dataType

/-- The classes of a target field when the given categories are modeled. -/
def ofCategories (categories : List String) (target : DataField) : Outcome Classes := do
  let positive ← modeled categories target
  let declared := (target.values.map (key target)).eraseDups
  if 2 < declared.length then .error (.unsupported (.targetClasses target.name declared.length))
  else match target.values.filter fun v => key target v != key target positive with
    | [negative] => .ok ⟨positive, negative⟩
    | [] => .error (.malformed (.noOtherClass target.name positive))
    | _ => .error (.malformed (.severalOtherClasses target.name positive))

end Classes

end Scoring
