import Mathlib.Data.List.Perm.Basic
import Scoring.Proofs.Layout.Row
import Scoring.Proofs.Layout.Span
import Scoring.Proofs.SparseVector

/-!
# Entries — the feature vector of a record

The spans of a vectorizer lie one behind the other, so what they store, span by span, ascends already and stays
within the size of the vectorizer. A record therefore has a feature vector as soon as every span can read it
(`vectorize_eq`), and the vector is the spans' entries in a row.
-/

namespace Scoring

/-- What contiguous spans store ascends strictly from the first index to the last. -/
theorem Span.Contiguous.stored_ascending {start : Nat} {spans : List Span}
    (h : Span.Contiguous start spans) (r : Record) :
    (((spans.map fun s => s.stored r).flatten).map Prod.fst).Pairwise (· < ·) ∧
      ∀ i ∈ ((spans.map fun s => s.stored r).flatten).map Prod.fst,
        start ≤ i ∧ i < start + (spans.map Span.size).sum := by
  induction spans generalizing start with
  | nil => simp
  | cons s rest ih =>
    obtain ⟨hoff, hrest⟩ := h
    obtain ⟨hasc, hrange⟩ := ih hrest
    obtain ⟨hs, hin⟩ := s.stored_ascending r
    have hstop : s.stop = start + s.size := by
      unfold Span.stop
      rw [hoff]
    rw [List.map_cons, List.flatten_cons, List.map_append, List.map_cons, List.sum_cons]
    constructor
    -- whatever the first span stores stands before the span behind it starts
    · refine List.pairwise_append.mpr ⟨hs, hasc, fun i hi j hj => ?_⟩
      have := hin i hi
      have := hrange j hj
      omega
    · intro i hi
      rcases List.mem_append.mp hi with hi | hi
      · have := hin i hi
        omega
      · have := hrange i hi
        omega

namespace Vectorizer

def stored (v : Vectorizer) (r : Record) : SparseVector where
  size := v.size
  entries := (v.spans.map fun s => s.stored r).flatten
  ascending := ((Span.gap?_eq_none_iff.mp v.aligned).stored_ascending r).1
  inRange i hi := by
    have := ((Span.gap?_eq_none_iff.mp v.aligned).stored_ascending r).2 i hi
    rw [v.size_eq_sum]
    omega

@[simp] theorem size_stored (v : Vectorizer) (r : Record) : (v.stored r).size = v.size := rfl

@[simp] theorem entries_stored (v : Vectorizer) (r : Record) :
    (v.stored r).entries = (v.spans.map fun s => s.stored r).flatten := rfl

/-- The entries that well formed spans give are those they store, up to their order. -/
theorem flatten_perm_stored {spans : List Span} (hs : ∀ s ∈ spans, s.WellFormed) {r : Record}
    {es : List (List (Nat × Float))} (h : spans.mapM (fun s => s.entries r) = .ok es) :
    es.flatten.Perm (spans.map fun s => s.stored r).flatten := by
  apply List.Perm.flatten_congr
  rw [Outcome.mapM_eq_ok] at h
  induction h with
  | nil => exact List.Forall₂.nil
  | @cons s e rest es hse _ ih =>
    refine List.Forall₂.cons ?_ (ih fun t ht => hs t (List.mem_cons_of_mem s ht))
    exact Span.entries_perm_stored (hs s List.mem_cons_self) hse

/-- Vectorizing fails only where a span cannot read the record; putting the entries together never does. -/
theorem vectorize_eq {v : Vectorizer} (hv : ∀ s ∈ v.spans, s.WellFormed) (r : Record) :
    v.vectorize r = (v.spans.mapM fun s => s.entries r) >>= fun _ => .ok (v.stored r) := by
  unfold vectorize
  cases h : v.spans.mapM fun s => s.entries r with
  | error e => rfl
  | ok es =>
    rw [Outcome.ok_bind, Outcome.ok_bind]
    -- sorting the entries gives what the spans store, which is a vector already
    exact SparseVector.ofUnordered_of_perm (v := v.stored r) (flatten_perm_stored hv h)

theorem eq_stored_of_vectorize {v : Vectorizer} (hv : ∀ s ∈ v.spans, s.WellFormed) {r : Record}
    {w : SparseVector} (h : v.vectorize r = .ok w) :
    w = v.stored r ∧ ∃ es, v.spans.mapM (fun s => s.entries r) = .ok es := by
  rw [vectorize_eq hv, Outcome.bind_eq_ok] at h
  obtain ⟨es, hes, hw⟩ := h
  cases hw
  exact ⟨rfl, es, hes⟩

/-- A record that every span can read has a feature vector. -/
theorem exists_of_entries {v : Vectorizer} (hv : ∀ s ∈ v.spans, s.WellFormed) {r : Record}
    (h : (v.spans.mapM (Span.entries · r)).isOk = true) : ∃ w, v.vectorize r = .ok w := by
  rw [vectorize_eq hv]
  cases hes : v.spans.mapM (Span.entries · r) with
  | error e =>
    rw [hes] at h
    cases h
  | ok es => exact ⟨v.stored r, rfl⟩

end Vectorizer

end Scoring
