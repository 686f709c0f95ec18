import Scoring.Proofs.SparseVector.Dense

/-!
# Payload — sparse vectors as JSON documents

A payload lists the indices of a vector as whole numbers and its numbers next to them. JSON has no word for infinity, so
a number that is not finite is written as null, which no reader takes for a number. `payload_round_trip` says which
vectors are read back, and which documents are vectors.
-/

namespace Scoring

def Json.IsNumber (j : Json) : Prop :=
  (∃ i, j = .int i) ∨ ∃ x, j = .float x

namespace Json

theorem nat?_eq_some_iff {j : Json} {n : Nat} : j.nat? = some n ↔ j = .int n := by
  cases j with
  | int i =>
    cases i with
    | ofNat m =>
      rw [nat?, Option.some.injEq, Json.int.injEq]
      exact Int.ofNat_inj.symm
    | negSucc m =>
      refine iff_of_false (by simp [nat?]) fun h => ?_
      cases h
  | null | bool | float | string | array | object => simp [nat?]

theorem exists_float?_iff {j : Json} : (∃ x, j.float? = some x) ↔ j.IsNumber := by
  unfold IsNumber
  cases j with
  | int | float | null | bool | string | array | object => simp [float?]

theorem float?_ofFloat_eq_some_iff {x y : Float} :
    (ofFloat x).float? = some y ↔ x.isFinite = true ∧ x = y := by
  unfold ofFloat
  split
  · rename_i hfinite
    simp [float?, hfinite]
  · rename_i hfinite
    simp [float?, hfinite]

theorem bind_items?_eq_some_iff {member : Option Json} {items : List Json} :
    member.bind items? = some items ↔ member = some (.array items) := by
  cases member with
  | none => simp
  | some j => cases j <;> simp [items?]

end Json

namespace SparseVector

variable {v : SparseVector} {size : Nat} {payload : Json}

/-! ## 1. Items of arrays -/

section Items

variable {α : Type} {f : Json → Option α} {fault : Json → Mismatch} {items : List Json}

theorem eachItem_eq_ok_iff {as : List α} : eachItem f fault items = .ok as ↔ items.map f = as.map some := by
  unfold eachItem
  rw [Outcome.mapM_eq_ok, ← List.forall₂_eq_eq_eq, List.forall₂_map_left_iff, List.forall₂_map_right_iff]
  refine Iff.of_eq (congrArg (fun R => List.Forall₂ R items as) ?_)
  funext j a
  cases f j <;> simp

/-- A list fails at an item that does not have what is asked for. -/
theorem exists_of_eachItem_eq_error {e : Fault} (h : eachItem f fault items = .error e) :
    ∃ j ∈ items, f j = none ∧ e = .mismatch (fault j) := by
  obtain ⟨j, hj, herror⟩ := Outcome.exists_of_mapM_eq_error h
  split at herror
  · cases herror
  · rename_i hnone
    cases herror
    exact ⟨j, hj, hnone, rfl⟩

end Items

/-! ## 2. Reading -/

/-- A payload is a vector when it lists the indices and the numbers of one. -/
theorem ofPayload_eq_ok_iff :
    ofPayload payload size = .ok v ↔ v.size = size ∧ ∃ is xs,
      payload.member? "indices" = some (.array is) ∧ payload.member? "values" = some (.array xs) ∧
      is.map Json.nat? = v.indices.map some ∧ xs.map Json.float? = v.values.map some := by
  constructor
  · intro h
    unfold ofPayload at h
    split at h
    · rename_i is his
      rw [Outcome.bind_eq_ok] at h
      obtain ⟨indices, hindices, h⟩ := h
      split at h
      · rename_i xs hxs
        rw [Outcome.bind_eq_ok] at h
        obtain ⟨values, hvalues, h⟩ := h
        obtain ⟨hsize, rfl, rfl⟩ := ofParts_eq_ok_iff.mp h
        exact ⟨hsize, is, xs, Json.bind_items?_eq_some_iff.mp his, Json.bind_items?_eq_some_iff.mp hxs,
          eachItem_eq_ok_iff.mp hindices, eachItem_eq_ok_iff.mp hvalues⟩
      · cases h
    · cases h
  · rintro ⟨hsize, is, xs, his, hxs, hindices, hvalues⟩
    unfold ofPayload
    rw [Json.bind_items?_eq_some_iff.mpr his, Json.bind_items?_eq_some_iff.mpr hxs]
    simp only [eachItem_eq_ok_iff.mpr hindices, eachItem_eq_ok_iff.mpr hvalues, Outcome.ok_bind]
    exact ofParts_eq_ok_iff.mpr ⟨hsize, rfl, rfl⟩

/-- Items are whole numbers from zero on when they are the indices written down. -/
theorem map_nat?_eq_iff {items : List Json} {indices : List Nat} :
    items.map Json.nat? = indices.map some ↔ items = indices.map fun n : Nat => .int n := by
  rw [← List.forall₂_eq_eq_eq, List.forall₂_map_left_iff, List.forall₂_map_right_iff,
    ← List.forall₂_eq_eq_eq, List.forall₂_map_right_iff]
  simp only [Json.nat?_eq_some_iff]

theorem exists_map_float?_iff {items : List Json} :
    (∃ values : List Float, items.map Json.float? = values.map some) ↔ ∀ j ∈ items, j.IsNumber := by
  simp only [← Json.exists_float?_iff]
  induction items with
  | nil => simp
  | cons j rest ih =>
    rw [List.forall_mem_cons, ← ih]
    constructor
    · rintro ⟨_ | ⟨x, xs⟩, h⟩
      · cases h
      · rw [List.map_cons, List.map_cons, List.cons.injEq] at h
        exact ⟨⟨x, h.1⟩, xs, h.2⟩
    · rintro ⟨⟨x, hx⟩, xs, hxs⟩
      exact ⟨x :: xs, by rw [List.map_cons, List.map_cons, hx, hxs]⟩

/-- A document is a vector of a size when its indices are whole numbers that ascend from zero on within the size, and as
many numbers go with them. -/
theorem exists_ofPayload_iff :
    (∃ v, ofPayload payload size = .ok v) ↔ ∃ is xs,
      payload.member? "indices" = some (.array is) ∧ payload.member? "values" = some (.array xs) ∧
      is.length = xs.length ∧ (∀ j ∈ xs, j.IsNumber) ∧
      ∃ indices : List Nat, is = indices.map (fun n : Nat => .int n) ∧ indices.Pairwise (· < ·) ∧
        ∀ i ∈ indices, i < size := by
  constructor
  · rintro ⟨v, hv⟩
    obtain ⟨rfl, is, xs, his, hxs, hindices, hvalues⟩ := ofPayload_eq_ok_iff.mp hv
    have hlengths : is.length = xs.length := by
      have hleft := congrArg List.length hindices
      have hright := congrArg List.length hvalues
      simp only [List.length_map] at hleft hright
      rw [hleft, hright, v.parallel_parts.length]
    exact ⟨is, xs, his, hxs, hlengths, exists_map_float?_iff.mp ⟨v.values, hvalues⟩, v.indices,
      map_nat?_eq_iff.mp hindices, v.ascending, v.inRange⟩
  · rintro ⟨is, xs, his, hxs, hlengths, hnumbers, indices, hindices, hascending, hrange⟩
    obtain ⟨values, hvalues⟩ := exists_map_float?_iff.mpr hnumbers
    have hlength : indices.length = values.length := by
      have hright := congrArg List.length hvalues
      simp only [List.length_map] at hright
      rw [← hright, ← hlengths, hindices, List.length_map]
    obtain ⟨v, hv⟩ := exists_ofParts_iff.mpr ⟨hlength, hascending, hrange⟩
    obtain ⟨hsize, rfl, rfl⟩ := ofParts_eq_ok_iff.mp hv
    exact ⟨v, ofPayload_eq_ok_iff.mpr ⟨hsize, is, xs, his, hxs, map_nat?_eq_iff.mpr hindices, hvalues⟩⟩

/-! ## 3. Writing and reading back -/

theorem member?_toPayload (v : SparseVector) :
    v.toPayload.member? "indices" = some (.array (v.indices.map fun n : Nat => .int n)) ∧
      v.toPayload.member? "values" = some (.array (v.values.map .ofFloat)) :=
  ⟨rfl, rfl⟩

/-- What is written down of numbers is read back as these numbers when all of them are finite. -/
theorem map_float?_ofFloat_iff {values : List Float} :
    (values.map Json.ofFloat).map Json.float? = values.map some ↔ ∀ x ∈ values, x.isFinite = true := by
  rw [List.map_map, List.map_inj_left]
  refine forall₂_congr fun x _ => ?_
  rw [Function.comp_apply, Json.float?_ofFloat_eq_some_iff, and_iff_left rfl]

theorem ofPayload_toPayload_of_finite (h : ∀ x ∈ v.values, x.isFinite = true) :
    ofPayload v.toPayload v.size = .ok v := by
  obtain ⟨hindices, hvalues⟩ := v.member?_toPayload
  exact ofPayload_eq_ok_iff.mpr ⟨rfl, _, _, hindices, hvalues, map_nat?_eq_iff.mpr rfl,
    map_float?_ofFloat_iff.mpr h⟩

/-- A number that is not finite stands there as null, and is refused. -/
theorem ofPayload_toPayload_of_not_finite (h : ∃ x ∈ v.values, x.isFinite = false) :
    ofPayload v.toPayload v.size = .error (.mismatch (.badValue .null)) := by
  obtain ⟨hindices, hvalues⟩ := v.member?_toPayload
  have hread : eachItem Json.nat? .badIndex (v.indices.map fun n : Nat => .int n) = .ok v.indices :=
    eachItem_eq_ok_iff.mpr (map_nat?_eq_iff.mpr rfl)
  have hrefused : eachItem Json.float? .badValue (v.values.map .ofFloat) =
      .error (.mismatch (.badValue .null)) := by
    cases hresult : eachItem Json.float? .badValue (v.values.map .ofFloat) with
    | ok values =>
      obtain ⟨x, hx, hinfinite⟩ := h
      rw [eachItem_eq_ok_iff] at hresult
      have hmem : (Json.ofFloat x).float? ∈ values.map some :=
        hresult ▸ List.mem_map_of_mem (List.mem_map_of_mem hx)
      obtain ⟨y, -, hy⟩ := List.mem_map.mp hmem
      rw [(Json.float?_ofFloat_eq_some_iff.mp hy.symm).1] at hinfinite
      cases hinfinite
    | error e =>
      obtain ⟨j, hj, hnone, rfl⟩ := exists_of_eachItem_eq_error hresult
      obtain ⟨x, -, rfl⟩ := List.mem_map.mp hj
      -- a finite number would have been read
      unfold Json.ofFloat at hnone ⊢
      split at hnone
      · cases hnone
      · rename_i hinfinite
        rw [if_neg hinfinite]
  unfold ofPayload
  rw [Json.bind_items?_eq_some_iff.mpr hindices, Json.bind_items?_eq_some_iff.mpr hvalues]
  simp only [hread, hrefused, Outcome.ok_bind, Outcome.error_bind]

/-- A vector is read back from its payload exactly when all its numbers are finite; any other number makes the payload a
mismatch. Of all JSON documents, those are vectors of a size that list whole numbers ascending from zero on within the
size, and as many numbers of any kind. -/
theorem payload_round_trip :
    (∀ v : SparseVector, (∀ x ∈ v.values, x.isFinite = true) → ofPayload v.toPayload v.size = .ok v) ∧
    (∀ v : SparseVector, (∃ x ∈ v.values, x.isFinite = false) →
      ofPayload v.toPayload v.size = .error (.mismatch (.badValue .null))) ∧
    ∀ payload size, (∃ v, ofPayload payload size = .ok v) ↔ ∃ is xs,
      payload.member? "indices" = some (.array is) ∧ payload.member? "values" = some (.array xs) ∧
      is.length = xs.length ∧ (∀ j ∈ xs, j.IsNumber) ∧
      ∃ indices : List Nat, is = indices.map (fun n : Nat => .int n) ∧ indices.Pairwise (· < ·) ∧
        ∀ i ∈ indices, i < size :=
  ⟨fun _ => ofPayload_toPayload_of_finite, fun _ => ofPayload_toPayload_of_not_finite,
    fun _ _ => exists_ofPayload_iff⟩

/-- The vector of four numbers is read back; with an infinite number in it, it would not be. -/
theorem payload_round_trip_ends :
    ofPayload ends.toPayload 4 = .ok ends ∧
      ofPayload (toPayload ⟨2, [(1, 1.0 / 0.0)], by decide, by decide⟩) 2 =
        .error (.mismatch (.badValue .null)) ∧
      (∃ v, ofPayload (.object [("indices", .array [.int 1]), ("values", .array [.int 7])]) 2 = .ok v) ∧
      ¬ ∃ v, ofPayload (.object [("indices", .array [.float 1.0]), ("values", .array [.int 7])]) 2 =
        .ok v := by
  obtain ⟨hfinite, hinfinite, hreads⟩ := payload_round_trip
  refine ⟨hfinite ends (by decide +kernel), ?_, ?_, ?_⟩
  · exact hinfinite ⟨2, [(1, 1.0 / 0.0)], by decide, by decide⟩ ⟨_, List.mem_singleton_self _, by decide +kernel⟩
  · refine (hreads _ _).mpr ⟨[.int 1], [.int 7], rfl, rfl, rfl, ?_, [1], rfl, by decide, by decide⟩
    exact List.forall_mem_singleton.mpr (.inl ⟨7, rfl⟩)
  · rw [hreads]
    rintro ⟨is, xs, his, -, -, -, indices, rfl, -, -⟩
    have hlist : [Json.float 1.0] = indices.map fun n : Nat => .int n := Json.array.inj (Option.some.inj his)
    cases indices with
    | nil => cases hlist
    | cons n rest => cases hlist

end SparseVector

end Scoring
