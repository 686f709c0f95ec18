import Scoring.CommandLine

/-!
# Arguments — what a user asks for on the command line

Options come in any order, each at most once, with their values behind them or attached: `--model m.json`,
`--model=m.json`, `-m m.json` and `-mm.json` say the same. The model and the input have to be given.
-/

namespace Scoring.CommandLine

structure Request where
  model : String
  input : String
  options : Options
  deriving Repr, DecidableEq

namespace Request

def valued : List String := ["model", "input", "model-index", "threads", "log-level"]

/-- The options that have none. -/
def flags : List String := ["precomputed", "debug"]

/-- A value that is attached to a one-letter option, with or without an equals sign. -/
def attached : List Char → Option String
  | [] => none
  | '=' :: cs => some (String.ofList cs)
  | cs => some (String.ofList cs)

/-- The name of an option and the value attached to it. -/
def option? (argument : String) : Option (String × Option String) :=
  match argument.toList with
  | '-' :: '-' :: cs =>
    some (String.ofList (cs.takeWhile (· != '=')),
      match cs.dropWhile (· != '=') with
      | [] => none
      | _ :: value => some (String.ofList value))
  | '-' :: 'm' :: cs => some ("model", attached cs)
  | '-' :: 'i' :: cs => some ("input", attached cs)
  | _ => none

/-- The values of the options given so far and in the remaining arguments; a flag has an empty value. -/
def settings? (given : Table String) : List String → Option (Table String)
  | [] => some given
  | argument :: rest => do
    let (name, value) ← option? argument
    if given.contains name then none
    else if name ∈ flags then
      if value.isSome then none else settings? (given.insert name "") rest
    else if name ∈ valued then
      match value, rest with
      | some v, rest => settings? (given.insert name v) rest
      | none, v :: rest => settings? (given.insert name v) rest
      | none, [] => none
    else none

/-- A whole number that is not negative. -/
def count? (text : String) : Option Nat := do
  let n ← Decimal.int64? text
  if 0 ≤ n then some n.toInt.toNat else none

/-- A number among the settings; it may be left out. -/
def number? (settings : Table String) (name : String) : Option (Option Nat) :=
  match settings.find? name with
  | none => some none
  | some text => (count? text).map some

/-- The run that the arguments ask for, if they make sense. -/
def ofArguments? (arguments : List String) : Option Request := do
  let settings ← settings? .empty arguments
  let model ← settings.find? "model"
  let input ← settings.find? "input"
  let modelIndex ← number? settings "model-index"
  let _ ← number? settings "threads"
  some {
    model
    input
    options := {
      modelIndex
      precomputed := settings.contains "precomputed"
      debug := settings.contains "debug" } }

end Request

end Scoring.CommandLine
