import Scoring.Engine

/-!
# CommandLine — scoring a file of documents

The program reads a model document and a file with one JSON document per line, and prints one line for each
answer. Everything it decides is decided here; only opening files and printing is left to the caller.
-/

namespace Scoring.CommandLine

open Spec (Document)

structure Options where
  /-- Which model of the document to use, if it holds several. -/
  modelIndex : Option Nat
  precomputed : Bool
  debug : Bool
  deriving Repr, DecidableEq

/-- What a run leaves behind: the lines it printed, and the message with which it failed, if it did. -/
structure Report where
  lines : List String
  message : Option String

namespace Report

def exitCode (r : Report) : UInt8 :=
  if r.message.isNone then 0 else 1

def failed (message : String) : Report :=
  ⟨[], some message⟩

end Report

/-- A file as far as a run needs it: its path, and its content if it exists. -/
structure File where
  path : String
  content : Option String

def compile (o : Options) (d : Document) : Outcome Scorer :=
  match o.precomputed, o.modelIndex with
  | true, index => Compile.precomputedAt d (index.getD 0)
  | false, some index => Compile.modelAt d index
  | false, none => Compile.document d

def answer (s : Scorer) (params : Params) (line : String) : Json :=
  let result := match Json.ofString? line with
    | some document => s.run document params
    | none => .error .unreadable
  match result with
  | .ok a => a.toJson
  | .error f => .object [("error", .string f.message)]

/-- A line without the carriage return at its end. -/
def withoutReturn (line : List Char) : List Char :=
  if line.getLast? = some '\r' then line.dropLast else line

/-- The lines of a text, without those that hold nothing but blanks. -/
def lines (text : String) : List String :=
  ((text.toList.splitOn '\n').map fun cs => String.ofList (withoutReturn cs)).filter fun l =>
    !Text.isBlankText l

def cannotOpen (role : String) (f : File) : String :=
  s!"Error: cannot open {role} {Json.quoted f.path}\n\nCaused by:\n    {Fault.missingFile.text}"

/-- Compile the model and score each line of the input. -/
def run (o : Options) (model input : File) : Report :=
  match model.content with
  | none => .failed (cannotOpen "model" model)
  | some text =>
    match Engine.parse text >>= compile o with
    | .error f => .failed s!"Error: {f.message}"
    | .ok s =>
      match input.content with
      | none => .failed (cannotOpen "input" input)
      | some text => ⟨(lines text).map fun l => (answer s ⟨o.debug⟩ l).compact, none⟩

end Scoring.CommandLine
