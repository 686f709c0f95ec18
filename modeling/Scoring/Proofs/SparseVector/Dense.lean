import Mathlib.Data.Nat.Basic
import Scoring.Proofs.Bisection
import Scoring.Proofs.Outcome
import Scoring.Proofs.SparseVector

/-!
# Dense — a sparse vector reads as its numbers in order

`Parallel` says which lists of indices and numbers are a vector of a size, and `Made` lists the ways to make one. Each
way gives a vector of the size that was asked for, and parallel lists are accepted exactly when they are one. Looking an
index up, writing all numbers down in order and adding up products then agree on every vector (`reads_as_dense`).
-/

namespace Scoring.SparseVector

variable {v : SparseVector} {size : Nat}

/-- The indices and the numbers of a vector of a size, apart. -/
structure Parallel (size : Nat) (indices : List Nat) (values : List Float) : Prop where
  length : indices.length = values.length
  ascending : indices.Pairwise (· < ·)
  inRange : ∀ i ∈ indices, i < size

/-! ## 1. Making vectors -/

theorem entries_eq_zip (v : SparseVector) : v.entries = v.indices.zip v.values :=
  List.zip_of_prod rfl rfl

theorem ofEntries_eq_ok_iff {entries : List (Nat × Float)} :
    ofEntries size entries = .ok v ↔ v.size = size ∧ v.entries = entries := by
  constructor
  · intro h
    unfold ofEntries at h
    split at h
    · cases h
    · cases h
      exact ⟨rfl, rfl⟩
  · rintro ⟨rfl, rfl⟩
    exact ofEntries_entries v

/-- Lists that make up a vector are its indices and its numbers. -/
theorem ofParts_eq_ok_iff {is : List Nat} {xs : List Float} :
    ofParts size is xs = .ok v ↔ v.size = size ∧ v.indices = is ∧ v.values = xs := by
  unfold ofParts
  split
  · rename_i hlength
    rw [ofEntries_eq_ok_iff]
    refine and_congr_right fun _ => ?_
    constructor
    · intro hentries
      unfold indices values
      rw [hentries]
      exact ⟨List.map_fst_zip hlength.le, List.map_snd_zip hlength.ge⟩
    · rintro ⟨rfl, rfl⟩
      exact v.entries_eq_zip
  · rename_i hlength
    refine iff_of_false (by simp) ?_
    rintro ⟨-, rfl, rfl⟩
    exact hlength (by simp [indices, values])

theorem parallel_parts (v : SparseVector) : Parallel v.size v.indices v.values where
  length := by simp [indices, values]
  ascending := v.ascending
  inRange := v.inRange

/-- Lists are accepted exactly when they are the indices and the numbers of a vector. -/
theorem exists_ofParts_iff {is : List Nat} {xs : List Float} :
    (∃ v, ofParts size is xs = .ok v) ↔ Parallel size is xs := by
  simp only [ofParts_eq_ok_iff]
  constructor
  · rintro ⟨v, rfl, rfl, rfl⟩
    exact v.parallel_parts
  · rintro ⟨hlength, hascending, hrange⟩
    have hindices : (is.zip xs).map Prod.fst = is := List.map_fst_zip hlength.le
    let v : SparseVector :=
      { size := size
        entries := is.zip xs
        ascending := by rwa [hindices]
        inRange := by rwa [hindices] }
    exact ⟨v, rfl, hindices, List.map_snd_zip hlength.ge⟩

/-- A vector that is made from entries in any order has these entries. -/
theorem perm_of_ofUnordered {entries : List (Nat × Float)} (h : ofUnordered size entries = .ok v) :
    v.size = size ∧ v.entries.Perm entries := by
  unfold ofUnordered at h
  rw [ofEntries_eq_ok_iff] at h
  refine ⟨h.1, ?_⟩
  rw [h.2]
  exact List.mergeSort_perm _ _

theorem exists_ofParts_of_ofPayload {payload : Json} (h : ofPayload payload size = .ok v) :
    ∃ is xs, ofParts size is xs = .ok v := by
  unfold ofPayload at h
  split at h
  · rw [Outcome.bind_eq_ok] at h
    obtain ⟨is, -, h⟩ := h
    split at h
    · rw [Outcome.bind_eq_ok] at h
      obtain ⟨xs, -, h⟩ := h
      exact ⟨is, xs, h⟩
    · cases h
  · cases h

inductive Made : Nat → SparseVector → Prop
  | zero (size : Nat) : Made size (zero size)
  | ofParts {size : Nat} {is : List Nat} {xs : List Float} {v : SparseVector}
      (parts : ofParts size is xs = .ok v) : Made size v
  | ofDense (xs : List Float) : Made xs.length (ofDense xs)
  | ofPayload {payload : Json} {size : Nat} {v : SparseVector} (payload : ofPayload payload size = .ok v) :
      Made size v
  | ofUnordered {size : Nat} {entries : List (Nat × Float)} {v : SparseVector}
      (entries : ofUnordered size entries = .ok v) : Made size v

/-- Every way gives a vector of the size that was asked for. -/
theorem Made.size_eq (h : Made size v) : v.size = size := by
  cases h with
  | zero => rfl
  | ofParts h => exact (ofParts_eq_ok_iff.mp h).1
  | ofDense => rfl
  | ofPayload h =>
    obtain ⟨is, xs, h⟩ := exists_ofParts_of_ofPayload h
    exact (ofParts_eq_ok_iff.mp h).1
  | ofUnordered h => exact (perm_of_ofUnordered h).1

/-! ## 2. Numbers -/

theorem get_of_not_mem {i : Nat} (h : i ∉ v.indices) : v.get i = 0.0 := by
  unfold get
  cases hfind : v.entries.find? fun e => e.1 == i with
  | none => rfl
  | some e =>
    have hindex : e.1 = i := by simpa using List.find?_some hfind
    exact absurd (hindex ▸ List.mem_map_of_mem (List.mem_of_find?_eq_some hfind)) h

/-- Halving the indices finds the number of every stored index, and of no other. -/
theorem bisect_indices (v : SparseVector) (i : Nat) :
    (bisect v.indices i).bind (v.values[·]?) = if i ∈ v.indices then some (v.get i) else none := by
  have hfound : ∀ x, (bisect v.indices i).bind (v.values[·]?) = some x ↔ (i, x) ∈ v.entries :=
    fun x => bisect_entries_eq_some_iff v.ascending
  split
  · rename_i hi
    obtain ⟨⟨j, x⟩, hx, rfl⟩ := List.mem_map.mp hi
    rw [(hfound x).mpr hx, get_of_mem hx]
  · rename_i hi
    rw [Option.eq_none_iff_forall_ne_some]
    exact fun x hx => hi (List.mem_map_of_mem ((hfound x).mp hx))

/-- Writing entries of distinct indices over a list: each index gets the number of its entry. -/
theorem getElem?_foldl_set {es : List (Nat × Float)} (hd : (es.map Prod.fst).Nodup) {xs : List Float}
    {i : Nat} (hi : i < xs.length) :
    (es.foldl (fun xs e => xs.set e.1 e.2) xs)[i]? =
      match es.find? fun e => e.1 == i with
      | some e => some e.2
      | none => xs[i]? := by
  induction es generalizing xs with
  | nil => rfl
  | cons e rest ih =>
    rw [List.map_cons, List.nodup_cons] at hd
    rw [List.foldl_cons, ih hd.2 (by rwa [List.length_set]), List.find?_cons]
    by_cases he : e.1 = i
    -- no later entry writes over this one
    · have hlater : rest.find? (fun e => e.1 == i) = none := by
        rw [List.find?_eq_none]
        intro e' he' hsame
        rw [beq_iff_eq] at hsame
        exact hd.1 (he.trans hsame.symm ▸ List.mem_map_of_mem he')
      have hindex : (e.1 == i) = true := beq_iff_eq.mpr he
      rw [hlater, hindex]
      simp only
      rw [he, List.getElem?_set_self hi]
    · have hindex : (e.1 == i) = false := beq_eq_false_iff_ne.mpr he
      rw [hindex]
      simp only
      rw [List.getElem?_set_ne he]

theorem length_toDense (v : SparseVector) : v.toDense.length = v.size := by
  unfold toDense
  have hlength : ∀ (es : List (Nat × Float)) (xs : List Float),
      (es.foldl (fun xs e => xs.set e.1 e.2) xs).length = xs.length := by
    intro es
    induction es with
    | nil => exact fun _ => rfl
    | cons e rest ih =>
      intro xs
      rw [List.foldl_cons, ih, List.length_set]
  rw [hlength, List.length_replicate]

/-- Written down in order, a vector has at each index the number that a look-up finds. -/
theorem getElem?_toDense {i : Nat} (hi : i < v.size) : v.toDense[i]? = some (v.get i) := by
  unfold toDense get
  rw [getElem?_foldl_set v.indices_nodup (by rwa [List.length_replicate])]
  cases v.entries.find? fun e => e.1 == i with
  | none => rw [List.getElem?_replicate, if_pos hi]
  | some e => rfl

/-- With a weight for each index, every stored index has a weight, and the products are added up in ascending order of
the indices. -/
theorem exists_weights {weights : List Float} (h : weights.length = v.size) :
    ∃ ws, ws.map some = v.indices.map (weights[·]?) ∧
      v.dot weights = .ok ((List.zipWith (· * ·) ws v.values).foldl (· + ·) (-0.0)) := by
  refine ⟨v.indices.map (weights.getD · 0.0), ?_, ?_⟩
  · rw [List.map_map]
    refine List.map_congr_left fun i hi => ?_
    have hlt : i < weights.length := h ▸ v.inRange i hi
    rw [Function.comp_apply, List.getD_eq_getElem?_getD, List.getElem?_eq_getElem hlt, Option.getD_some]
  · unfold dot Arithmetic.sum indices values
    rw [if_pos h, List.map_map, List.zipWith_map, List.zipWith_self]
    rfl

/-! ## 3. Dense lists -/

/-- The entries of a dense list are its numbers other than zero, each at its place. -/
theorem mem_nonzero {start place : Nat} {x : Float} {xs : List Float} :
    (place, x) ∈ nonzero start xs ↔ ∃ i, place = start + i ∧ xs[i]? = some x ∧ (x != 0.0) = true := by
  induction xs generalizing start with
  | nil => simp [nonzero]
  | cons y ys ih =>
    -- the number at the front has the place `start`, and the others follow
    have hsplit : (∃ i, place = start + i ∧ (y :: ys)[i]? = some x ∧ (x != 0.0) = true) ↔
        (place = start ∧ y = x ∧ (x != 0.0) = true) ∨ (place, x) ∈ nonzero (start + 1) ys := by
      rw [ih]
      constructor
      · rintro ⟨i, rfl, hx, hzero⟩
        cases i with
        | zero => exact .inl ⟨rfl, by simpa using hx, hzero⟩
        | succ i => exact .inr ⟨i, by omega, by simpa using hx, hzero⟩
      · rintro (⟨rfl, rfl, hzero⟩ | ⟨i, rfl, hx, hzero⟩)
        · exact ⟨0, rfl, rfl, hzero⟩
        · exact ⟨i + 1, by omega, by simpa using hx, hzero⟩
    rw [hsplit, nonzero]
    split
    · rename_i hy
      rw [List.mem_cons, Prod.mk.injEq]
      refine or_congr_left ⟨?_, ?_⟩
      · rintro ⟨rfl, rfl⟩
        exact ⟨rfl, rfl, hy⟩
      · rintro ⟨rfl, rfl, -⟩
        exact ⟨rfl, rfl⟩
    · rename_i hy
      refine ⟨.inr, ?_⟩
      rintro (⟨-, rfl, hx⟩ | hrest)
      · exact absurd hx hy
      · exact hrest

theorem mem_entries_ofDense {xs : List Float} {i : Nat} {x : Float} :
    (i, x) ∈ (ofDense xs).entries ↔ xs[i]? = some x ∧ (x != 0.0) = true := by
  show (i, x) ∈ nonzero 0 xs ↔ _
  rw [mem_nonzero]
  constructor
  · rintro ⟨j, rfl, h⟩
    rwa [Nat.zero_add]
  · exact fun h => ⟨i, (Nat.zero_add i).symm, h⟩

/-- Looking an index up in the vector of a dense list: the number there, unless it equals zero. -/
theorem get_ofDense (xs : List Float) (i : Nat) :
    (ofDense xs).get i = match xs[i]? with
      | some x => if x != 0.0 then x else 0.0
      | none => 0.0 := by
  have hmissing : (∀ x, (i, x) ∉ (ofDense xs).entries) → (ofDense xs).get i = 0.0 := by
    intro hnone
    refine get_of_not_mem fun hi => ?_
    obtain ⟨⟨j, x⟩, hx, rfl⟩ := List.mem_map.mp hi
    exact hnone x hx
  cases hx : xs[i]? with
  | none =>
    refine hmissing fun x hmem => ?_
    rw [mem_entries_ofDense, hx] at hmem
    cases hmem.1
  | some x =>
    simp only
    split
    · rename_i hzero
      exact get_of_mem (mem_entries_ofDense.mpr ⟨hx, hzero⟩)
    · rename_i hzero
      refine hmissing fun y hmem => ?_
      rw [mem_entries_ofDense, hx, Option.some.injEq] at hmem
      exact hzero (hmem.1 ▸ hmem.2)

/-! ## 4. All vectors -/

/-- Whatever way a vector is made, it has the size that was asked for, and its indices ascend within it. Its numbers in
order, the number that is looked up at an index and the one that halving finds are the same, with zero wherever nothing
is stored; and it takes exactly one weight for each index, of which every stored index has its own. Lists are accepted
exactly when they are the indices and the numbers of a vector, and a dense list keeps what does not equal zero. -/
theorem reads_as_dense :
    (∀ size v, Made size v →
      v.size = size ∧ Parallel size v.indices v.values ∧ v.toDense.length = size ∧
      (∀ i, (i < size → v.toDense[i]? = some (v.get i)) ∧ (size ≤ i → v.get i = 0.0) ∧
        (i ∉ v.indices → v.get i = 0.0) ∧
        (bisect v.indices i).bind (v.values[·]?) = if i ∈ v.indices then some (v.get i) else none) ∧
      ∀ weights : List Float,
        (weights.length = size → ∃ ws, ws.map some = v.indices.map (weights[·]?) ∧
          v.dot weights = .ok ((List.zipWith (· * ·) ws v.values).foldl (· + ·) (-0.0))) ∧
        (weights.length ≠ size →
          v.dot weights = .error (.mismatch (.vectorSize size weights.length)))) ∧
    (∀ size is xs, ((∃ v, ofParts size is xs = .ok v) ↔ Parallel size is xs) ∧
      ∀ v, ofParts size is xs = .ok v → v.indices = is ∧ v.values = xs) ∧
    ∀ xs, (∀ i x, (i, x) ∈ (ofDense xs).entries ↔ xs[i]? = some x ∧ (x != 0.0) = true) ∧
      ∀ i, (ofDense xs).get i = match xs[i]? with
        | some x => if x != 0.0 then x else 0.0
        | none => 0.0 := by
  refine ⟨fun size v hmade => ?_, fun size is xs => ⟨exists_ofParts_iff, fun v hv => ?_⟩,
    fun xs => ⟨fun i x => mem_entries_ofDense, get_ofDense xs⟩⟩
  · obtain rfl := hmade.size_eq
    refine ⟨rfl, v.parallel_parts, v.length_toDense, fun i => ⟨getElem?_toDense, fun hi => ?_,
      get_of_not_mem, v.bisect_indices i⟩, fun weights => ⟨exists_weights, fun hlength => ?_⟩⟩
    · exact get_of_not_mem fun hmem => absurd (v.inRange i hmem) (Nat.not_lt.mpr hi)
    · unfold dot
      rw [if_neg hlength]
  · exact (ofParts_eq_ok_iff.mp hv).2

def ends : SparseVector :=
  ⟨4, [(0, 2.0), (3, 0.5)], by decide, by decide⟩

theorem reads_as_dense_ends :
    Made 4 ends ∧ ends.toDense.length = 4 ∧ ends.toDense[3]? = some 0.5 ∧ ends.get 7 = 0.0 ∧
      ends.dot [1.0, 10.0, 10.0, 4.0] = .ok 4.0 ∧
      ends.dot [1.0, 2.0] = .error (.mismatch (.vectorSize 4 2)) ∧
      (¬ ∃ v, ofParts 4 [2, 1] [1.0, 1.0] = .ok v) ∧
      (2, 1.5) ∈ (ofDense [0.0, -0.0, 1.5]).entries ∧ (ofDense [0.0, -0.0, 1.5]).get 1 = 0.0 := by
  obtain ⟨hvectors, hparts, hlists⟩ := reads_as_dense
  have hends : ofParts 4 [0, 3] [2.0, 0.5] = .ok ends := rfl
  have hmade : Made 4 ends := .ofParts hends
  obtain ⟨-, -, hlength, hget, hdot⟩ := hvectors 4 ends hmade
  obtain ⟨ws, hws, hsum⟩ := (hdot [1.0, 10.0, 10.0, 4.0]).1 rfl
  have hweights : ws = [1.0, 4.0] := List.map_injective_iff.mpr (fun _ _ => Option.some.inj) hws
  have hfour : (List.zipWith (· * ·) ws ends.values).foldl (· + ·) (-0.0) = 4.0 := by
    rw [hweights]
    decide +kernel
  have hzero : ((-0.0 : Float) != 0.0) = false := by decide +kernel
  obtain ⟨hmem, hnumber⟩ := hlists [0.0, -0.0, 1.5]
  have hsecond : (ofDense [0.0, -0.0, 1.5]).get 1 = 0.0 := by
    rw [hnumber]
    simp only [List.getElem?_cons_succ, List.getElem?_cons_zero, hzero, Bool.false_eq_true, if_false]
  have hunsorted : ¬ Parallel 4 [2, 1] [1.0, 1.0] := fun h => absurd h.ascending (by decide)
  refine ⟨hmade, hlength, (hget 3).1 (by decide), (hget 7).2.1 (by decide), hsum.trans (congrArg _ hfour),
    (hdot [1.0, 2.0]).2 (by decide), fun h => hunsorted ((hparts _ _ _).1.mp h),
    (hmem 2 1.5).mpr ⟨rfl, by decide +kernel⟩, hsecond⟩

end Scoring.SparseVector
