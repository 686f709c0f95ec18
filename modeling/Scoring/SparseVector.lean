import Scoring.Arithmetic
import Scoring.Fault

/-!
# SparseVector — feature vectors with few entries

A vector of a given size keeps only some of its entries, by ascending index; every other entry is zero.
Vectors come from parallel lists, from dense lists, from JSON payloads and from entries in any order, and
each way refuses what would not be a vector. `toDense` is the view: `get` and `dot` agree with it.
-/

namespace Scoring

/-- A vector of `size` numbers; the stored entries ascend strictly and lie within the size. -/
structure SparseVector where
  size : Nat
  entries : List (Nat × Float)
  ascending : (entries.map Prod.fst).Pairwise (· < ·)
  inRange : ∀ i ∈ entries.map Prod.fst, i < size

namespace SparseVector

def zero (size : Nat) : SparseVector :=
  ⟨size, [], List.Pairwise.nil, by simp⟩

def indices (v : SparseVector) : List Nat :=
  v.entries.map Prod.fst

def values (v : SparseVector) : List Float :=
  v.entries.map Prod.snd

def stored (v : SparseVector) : Nat :=
  v.entries.length

/-! ## Making vectors -/

/-- The first index of a list that is too large or not greater than the one before it. -/
def badIndex? (size : Nat) : Option Nat → List Nat → Option Mismatch
  | _, [] => none
  | previous, i :: rest =>
    if size ≤ i then some (.indexOutOfRange i size)
    else match previous with
      | some p => if i ≤ p then some (.notAscending i p) else badIndex? size (some i) rest
      | none => badIndex? size (some i) rest

/-- No index is bad exactly when all are within the size and they ascend from the one before. -/
theorem badIndex?_eq_none_iff {size : Nat} {previous : Option Nat} {is : List Nat} :
    badIndex? size previous is = none ↔
      (∀ i ∈ is, i < size) ∧ is.Pairwise (· < ·) ∧ ∀ p ∈ previous, ∀ i ∈ is, p < i := by
  induction is generalizing previous with
  | nil => simp [badIndex?]
  | cons i rest ih =>
    unfold badIndex?
    split
    -- beyond the size
    · rename_i h
      simp only [reduceCtorEq, false_iff]
      intro hall
      have := hall.1 i (by simp)
      omega
    · rename_i h
      split
      · rename_i p
        split
        -- not behind its predecessor
        · rename_i hp
          simp only [reduceCtorEq, false_iff]
          intro hall
          have := hall.2.2 p rfl i (by simp)
          omega
        -- good so far, so it is up to the indices behind
        · rename_i hp
          rw [ih]
          simp only [Option.mem_def, Option.some.injEq, forall_eq', List.mem_cons, forall_eq_or_imp,
            List.pairwise_cons]
          constructor
          · rintro ⟨h₁, h₂, h₃⟩
            exact ⟨⟨by omega, h₁⟩, ⟨h₃, h₂⟩, by omega, fun j hj => by have := h₃ j hj; omega⟩
          · rintro ⟨⟨_, h₁⟩, ⟨h₃, h₂⟩, _⟩
            exact ⟨h₁, h₂, h₃⟩
      -- the first index has no predecessor
      · rw [ih]
        simp only [Option.mem_def, Option.some.injEq, forall_eq', List.mem_cons, forall_eq_or_imp,
          List.pairwise_cons, reduceCtorEq, false_implies, implies_true, and_true]
        constructor
        · rintro ⟨h₁, h₂, h₃⟩
          exact ⟨⟨by omega, h₁⟩, h₃, h₂⟩
        · rintro ⟨⟨_, h₁⟩, h₃, h₂⟩
          exact ⟨h₁, h₂, h₃⟩

/-- The vector with the given entries, which have to ascend within the size. -/
def ofEntries (size : Nat) (entries : List (Nat × Float)) : Outcome SparseVector :=
  match h : badIndex? size none (entries.map Prod.fst) with
  | some cause => .error (.mismatch cause)
  | none =>
    have valid := badIndex?_eq_none_iff.1 h
    .ok ⟨size, entries, valid.2.1, valid.1⟩

/-- The vector with the given numbers at the given indices. -/
def ofParts (size : Nat) (indices : List Nat) (values : List Float) : Outcome SparseVector :=
  if indices.length = values.length then ofEntries size (indices.zip values)
  else .error (.mismatch (.vectorLengths indices.length values.length))

def ofUnordered (size : Nat) (entries : List (Nat × Float)) : Outcome SparseVector :=
  ofEntries size (entries.mergeSort fun a b => a.1 ≤ b.1)

/-- The entries of a dense list from index `i` on that are not zero. -/
def nonzero : Nat → List Float → List (Nat × Float)
  | _, [] => []
  | i, x :: xs => if x != 0.0 then (i, x) :: nonzero (i + 1) xs else nonzero (i + 1) xs

/-- The indices ascend within the places that the list takes up. -/
theorem nonzero_bounds {i : Nat} {xs : List Float} :
    ((nonzero i xs).map Prod.fst).Pairwise (· < ·) ∧
      ∀ j ∈ (nonzero i xs).map Prod.fst, i ≤ j ∧ j < i + xs.length := by
  induction xs generalizing i with
  | nil => simp [nonzero]
  | cons x xs ih =>
    obtain ⟨ha, hr⟩ := ih (i := i + 1)
    unfold nonzero
    split
    · refine ⟨List.pairwise_cons.2 ⟨fun j hj => ?_, ha⟩, fun j hj => ?_⟩
      · have := hr j hj; omega
      · rcases List.mem_cons.1 hj with rfl | hj
        · simp
        · have := hr j hj; simp only [List.length_cons]; omega
    · refine ⟨ha, fun j hj => ?_⟩
      have := hr j hj; simp only [List.length_cons]; omega

/-- The vector of a dense list; zeros are not stored. -/
def ofDense (xs : List Float) : SparseVector :=
  ⟨xs.length, nonzero 0 xs, nonzero_bounds.1, fun i h => by have := nonzero_bounds.2 i h; omega⟩

/-! ## Reading vectors -/

/-- The number at an index, zero where none is stored. -/
def get (v : SparseVector) (i : Nat) : Float :=
  match v.entries.find? fun e => e.1 == i with
  | some e => e.2
  | none => 0.0

/-- All numbers in order: zeros, with the stored entries written over them. -/
def toDense (v : SparseVector) : List Float :=
  v.entries.foldl (fun xs e => xs.set e.1 e.2) (List.replicate v.size 0.0)

/-- The sum of the stored numbers times their weights, in ascending order of indices; there has to be one
weight for each index. -/
def dot (v : SparseVector) (weights : List Float) : Outcome Float :=
  if weights.length = v.size then
    .ok (Arithmetic.sum (v.entries.map fun e => weights.getD e.1 0.0 * e.2))
  else .error (.mismatch (.vectorSize v.size weights.length))

/-! ## Payloads -/

def toPayload (v : SparseVector) : Json :=
  .object [
    ("indices", .ofList (fun i : Nat => .int i) v.indices),
    ("values", .ofList .ofFloat v.values)]

/-- The items of an array with `f` of each, or the first item without. -/
def eachItem {α : Type} (f : Json → Option α) (fault : Json → Mismatch) (items : List Json) :
    Outcome (List α) :=
  items.mapM fun j =>
    match f j with
    | some a => .ok a
    | none => .error (.mismatch (fault j))

/-- The vector of a JSON payload: an object with an array of indices and an array of numbers. -/
def ofPayload (payload : Json) (size : Nat) : Outcome SparseVector := do
  let some items := (payload.member? "indices").bind Json.items? | .error (.mismatch .noIndices)
  let indices ← eachItem Json.nat? .badIndex items
  let some items := (payload.member? "values").bind Json.items? | .error (.mismatch .noValues)
  let values ← eachItem Json.float? .badValue items
  ofParts size indices values

end SparseVector

end Scoring
