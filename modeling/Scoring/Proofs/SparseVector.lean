import Mathlib.Data.List.Sort
import Scoring.SparseVector

/-!
# SparseVector — entries in any order

The check of indices stops at the first bad one and has found all in front of it good. A vector is fixed by its entries,
whatever order they come in: sorting them gives back the order of the vector, and no check refuses them. A vector that
stores every index is its numbers in order.
-/

namespace Scoring.SparseVector

/-! ## 1. The check of indices -/

/-- The first index is checked against the previous one, and the others as those behind the first. -/
theorem badIndex?_cons {size : Nat} {previous : Option Nat} {i : Nat} {rest : List Nat} :
    badIndex? size previous (i :: rest) =
      (badIndex? size previous [i]).or (badIndex? size (some i) rest) := by
  cases previous with
  | none =>
    simp only [badIndex?]
    split <;> rfl
  | some p =>
    simp only [badIndex?]
    split
    · rfl
    · split <;> rfl

/-- A bad index is beyond the size or does not ascend from an index in front of it, and all in front of it are good. -/
theorem exists_of_badIndex? {size : Nat} {previous : Option Nat} {is : List Nat} {cause : Mismatch}
    (h : badIndex? size previous is = some cause) :
    ∃ front i back, is = front ++ i :: back ∧ badIndex? size previous front = none ∧
      (size ≤ i ∧ cause = .indexOutOfRange i size ∨
        i < size ∧ ∃ p ∈ previous.toList ++ front, i ≤ p ∧ cause = .notAscending i p) := by
  induction is generalizing previous with
  | nil => cases h
  | cons i rest ih =>
    rw [badIndex?_cons, Option.or_eq_some_iff] at h
    rcases h with h | ⟨hgood, h⟩
    -- the first index is the bad one
    · refine ⟨[], i, rest, rfl, rfl, ?_⟩
      unfold badIndex? at h
      split at h
      · rename_i hbeyond
        exact .inl ⟨hbeyond, (Option.some.inj h).symm⟩
      · rename_i hwithin
        split at h
        · rename_i p
          split at h
          · rename_i hp
            exact .inr ⟨Nat.lt_of_not_le hwithin, p, by simp, hp, (Option.some.inj h).symm⟩
          · cases h
        · cases h
    -- it is behind the first one, which takes the place of the previous index
    · obtain ⟨front, j, back, rfl, hfront, hbad⟩ := ih h
      refine ⟨i :: front, j, back, rfl, ?_, ?_⟩
      · rw [badIndex?_cons, hgood, hfront]
        rfl
      · refine hbad.imp_right fun ⟨hwithin, p, hp, hle, hcause⟩ => ⟨hwithin, p, ?_, hle, hcause⟩
        exact List.mem_append_right _ hp

/-! ## 2. Entries -/

theorem indices_nodup (v : SparseVector) : (v.entries.map Prod.fst).Nodup :=
  v.ascending.nodup

theorem get_of_mem {v : SparseVector} {i : Nat} {x : Float} (h : (i, x) ∈ v.entries) : v.get i = x := by
  unfold get
  cases hfind : v.entries.find? fun e => e.1 == i with
  | none => simpa using List.find?_eq_none.mp hfind _ h
  | some e =>
    have hindex : e.1 = i := by simpa using List.find?_some hfind
    have hsame := List.inj_on_of_nodup_map v.indices_nodup (List.mem_of_find?_eq_some hfind) h hindex
    rw [hsame]

/-- The entries are the numbers at the stored indices. -/
theorem entries_eq_map_get (v : SparseVector) : v.entries = v.indices.map fun i => (i, v.get i) := by
  unfold indices
  rw [List.map_map]
  refine (List.map_id _).symm.trans (List.map_congr_left fun e he => ?_)
  rw [Function.comp_apply, get_of_mem he]
  rfl

/-- Entries that ascend within the size are accepted as they are. -/
theorem ofEntries_entries (v : SparseVector) : ofEntries v.size v.entries = .ok v := by
  have hgood : badIndex? v.size none (v.entries.map Prod.fst) = none :=
    badIndex?_eq_none_iff.mpr ⟨v.inRange, v.ascending, by simp⟩
  unfold ofEntries
  split
  · rename_i cause hcause
    rw [hgood] at hcause
    simp at hcause
  · rfl

/-- Sorted by index, entries have indices that ascend, though not strictly. -/
theorem ascending_mergeSort (es : List (Nat × Float)) :
    ((es.mergeSort fun a b => decide (a.1 ≤ b.1)).map Prod.fst).Pairwise (· ≤ ·) :=
  List.pairwise_map.mpr (List.pairwise_mergeSort' _ es)

/-- The entries of a vector in any order make up the vector. -/
theorem ofUnordered_of_perm {v : SparseVector} {es : List (Nat × Float)} (h : es.Perm v.entries) :
    ofUnordered v.size es = .ok v := by
  have hascending : v.entries.Pairwise fun a b => a.1 ≤ b.1 :=
    (List.pairwise_map.mp v.ascending).imp Nat.le_of_lt
  have hperm := (List.mergeSort_perm es fun a b : Nat × Float => decide (a.1 ≤ b.1)).trans h
  -- sorted lists of the same entries are equal
  have heq : (es.mergeSort fun a b => decide (a.1 ≤ b.1)) = v.entries := by
    refine hperm.eq_of_pairwise (fun a b ha hb hab hba => ?_) (List.pairwise_mergeSort' _ es) hascending
    -- entries of one index are the same entry
    exact List.inj_on_of_nodup_map v.indices_nodup (hperm.subset ha) hb (Nat.le_antisymm hab hba)
  unfold ofUnordered
  rw [heq]
  exact ofEntries_entries v

/-- Entries of distinct indices within a size make up a vector of that size, in any order. -/
theorem exists_of_nodup {size : Nat} {es : List (Nat × Float)} (hd : (es.map Prod.fst).Nodup)
    (hr : ∀ i ∈ es.map Prod.fst, i < size) :
    ∃ v, ofUnordered size es = .ok v ∧ v.size = size ∧ v.entries.Perm es := by
  have hperm := List.mergeSort_perm es fun a b : Nat × Float => decide (a.1 ≤ b.1)
  have hnodup := (hperm.map Prod.fst).nodup_iff.mpr hd
  let v : SparseVector :=
    { size := size
      entries := es.mergeSort fun a b => decide (a.1 ≤ b.1)
      ascending := ((ascending_mergeSort es).and hnodup).imp fun h => Nat.lt_of_le_of_ne h.1 h.2
      inRange := fun i hi => hr i ((hperm.map Prod.fst).subset hi) }
  exact ⟨v, ofUnordered_of_perm (v := v) hperm.symm, rfl, hperm⟩

/-- A list of numbers is a vector, with an index for each of them. -/
theorem exists_ofParts_range (xs : List Float) :
    ∃ v, ofParts xs.length (List.range xs.length) xs = .ok v ∧ v.size = xs.length ∧
      v.entries = (List.range xs.length).zip xs := by
  have hindices : ((List.range xs.length).zip xs).map Prod.fst = List.range xs.length :=
    List.map_fst_zip (by simp)
  let v : SparseVector :=
    { size := xs.length
      entries := (List.range xs.length).zip xs
      ascending := by
        rw [hindices]
        exact List.pairwise_lt_range
      inRange := by
        rw [hindices]
        exact fun i hi => List.mem_range.mp hi }
  refine ⟨v, ?_, rfl, rfl⟩
  unfold ofParts
  rw [if_pos (by simp)]
  exact ofEntries_entries v

end Scoring.SparseVector
