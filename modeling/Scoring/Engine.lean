import Scoring.Compile
import Scoring.Spec.Decoder

/-!
# Engine — from the text of a document to a scorer
-/

namespace Scoring.Engine

open Spec (Document)

def name : String := "pmml_model"

def parse (text : String) : Outcome Document :=
  match Document.ofString? text with
  | some d => .ok d
  | none => .error .unreadable

/-- The scorer of a text that describes a document with one model. -/
def compileText (text : String) : Outcome Scorer := do
  Compile.document (← parse text)

end Scoring.Engine
