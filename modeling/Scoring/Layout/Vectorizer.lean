import Scoring.Layout.Span

/-!
# Vectorizer — from records to feature vectors

A vectorizer is a list of spans that follow each other without gap or overlap from index 0 on. Its vectors have
the length of all spans together.
-/

namespace Scoring

/-- The first span that does not start where the one before it ends, with that end. -/
def Span.gap? : Nat → List Span → Option (Span × Nat)
  | _, [] => none
  | start, s :: rest => if s.offset = start then gap? s.stop rest else some (s, start)

structure Vectorizer where
  spans : List Span
  aligned : Span.gap? 0 spans = none

namespace Vectorizer

def ofSpans (spans : List Span) : Outcome Vectorizer :=
  match h : Span.gap? 0 spans with
  | none => .ok ⟨spans, h⟩
  | some (s, stop) => .error (.malformed (.gap s.name s.offset stop))

def size (v : Vectorizer) : Nat :=
  match v.spans.getLast? with
  | none => 0
  | some s => s.stop

def vectorize (v : Vectorizer) (r : Record) : Outcome SparseVector := do
  let entries ← v.spans.mapM fun s => s.entries r
  SparseVector.ofUnordered v.size entries.flatten

end Vectorizer

end Scoring
