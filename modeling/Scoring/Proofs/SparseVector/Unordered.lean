import Mathlib.Order.Bounds.Basic
import Scoring.Proofs.SparseVector.Dense

/-!
# Unordered — one vector for every order of its entries

Entries come in whatever order the fields of a record give them, and are sorted by index before they are checked. Equal
indices are then neighbours, so comparing each index with the one before it finds every repetition, and nothing else but
the indices beyond the size. What comes out depends on the entries alone (`built_in_any_order`): the vector that stores
all of them, or the complaint about the least index at fault.
-/

namespace Scoring.SparseVector

variable {v : SparseVector} {size : Nat} {entries others : List (Nat × Float)}

/-! ## 1. Indices at fault -/

def AtFault (size : Nat) (indices : List Nat) (i : Nat) : Prop :=
  i ∈ indices ∧ (size ≤ i ∨ 1 < indices.count i)

/-- What is said of an index at fault; one that is there more than once comes after itself. -/
def complaint (size i : Nat) : Mismatch :=
  if size ≤ i then .indexOutOfRange i size else .notAscending i i

theorem atFault_iff_of_perm {is js : List Nat} (h : is.Perm js) {i : Nat} :
    AtFault size is i ↔ AtFault size js i := by
  unfold AtFault
  rw [h.mem_iff, h.count_eq]

theorem not_atFault {is : List Nat} (hd : is.Nodup) (hr : ∀ i ∈ is, i < size) (i : Nat) : ¬ AtFault size is i := by
  rintro ⟨hi, hbeyond | hrepeated⟩
  · exact absurd (hr i hi) (Nat.not_lt.mpr hbeyond)
  · exact absurd (List.nodup_iff_count_le_one.mp hd i) (Nat.not_le.mpr hrepeated)

/-! ## 2. The check of sorted indices -/

/-- The bad index that is found among sorted indices is the least index at fault. -/
theorem exists_isLeast_of_badIndex? {is : List Nat} {cause : Mismatch} (hsorted : is.Pairwise (· ≤ ·))
    (h : badIndex? size none is = some cause) :
    ∃ i, IsLeast {j | AtFault size is j} i ∧ cause = complaint size i := by
  obtain ⟨front, i, back, rfl, hgood, hbad⟩ := exists_of_badIndex? h
  obtain ⟨hrange, hascending, -⟩ := badIndex?_eq_none_iff.mp hgood
  obtain ⟨-, hbehind, hacross⟩ := List.pairwise_append.mp hsorted
  -- an index that is less stands in front of it, is there once and lies within the size
  have hlower : i ∈ lowerBounds {j | AtFault size (front ++ i :: back) j} := by
    rintro j ⟨hj, hfault⟩
    by_contra hlt
    have hnot : j ∉ i :: back := by
      intro hmem
      rcases List.mem_cons.mp hmem with rfl | hmem
      · exact hlt (Nat.le_refl j)
      · exact hlt (List.rel_of_pairwise_cons hbehind hmem)
    have hfront : j ∈ front := (List.mem_append.mp hj).resolve_right hnot
    have hcount : (front ++ i :: back).count j = 1 := by
      rw [List.count_append, List.count_eq_zero.mpr hnot, List.count_eq_one_of_mem hascending.nodup hfront]
    have := hrange j hfront
    omega
  have hmem : i ∈ front ++ i :: back := List.mem_append_right _ List.mem_cons_self
  rcases hbad with ⟨hbeyond, rfl⟩ | ⟨hwithin, p, hp, hle, rfl⟩
  · exact ⟨i, ⟨⟨hmem, .inl hbeyond⟩, hlower⟩, (if_pos hbeyond).symm⟩
  -- sorted, the index before it is the same index
  · obtain rfl : p = i := Nat.le_antisymm (hacross p hp i List.mem_cons_self) hle
    have hcount : 1 < (front ++ p :: back).count p := by
      have hpos : 0 < front.count p := List.count_pos_iff.mpr hp
      rw [List.count_append, List.count_cons_self]
      omega
    exact ⟨p, ⟨⟨hmem, .inr hcount⟩, hlower⟩, (if_neg (Nat.not_le.mpr hwithin)).symm⟩

/-! ## 3. Entries in any order -/

/-- The vector that entries make up is the vector that has these entries. -/
theorem ofUnordered_eq_ok_iff :
    ofUnordered size entries = .ok v ↔ v.size = size ∧ v.entries.Perm entries := by
  constructor
  · exact perm_of_ofUnordered
  · rintro ⟨rfl, hperm⟩
    exact ofUnordered_of_perm hperm.symm

/-- Entries make up a vector exactly when no two have one index and all indices are within the size. -/
theorem exists_ofUnordered_iff :
    (∃ v, ofUnordered size entries = .ok v) ↔
      (entries.map Prod.fst).Nodup ∧ ∀ i ∈ entries.map Prod.fst, i < size := by
  constructor
  · rintro ⟨v, hv⟩
    obtain ⟨rfl, hperm⟩ := ofUnordered_eq_ok_iff.mp hv
    have hindices := hperm.map Prod.fst
    exact ⟨hindices.nodup_iff.mp v.indices_nodup, fun i hi => v.inRange i (hindices.mem_iff.mpr hi)⟩
  · rintro ⟨hd, hr⟩
    obtain ⟨v, hv, -⟩ := exists_of_nodup hd hr
    exact ⟨v, hv⟩

theorem exists_isLeast_of_ofUnordered {e : Fault} (h : ofUnordered size entries = .error e) :
    ∃ i, IsLeast {j | AtFault size (entries.map Prod.fst) j} i ∧ e = .mismatch (complaint size i) := by
  have hperm := (List.mergeSort_perm entries fun a b : Nat × Float => decide (a.1 ≤ b.1)).map Prod.fst
  unfold ofUnordered ofEntries at h
  split at h
  · rename_i cause hcause
    cases h
    obtain ⟨i, hleast, rfl⟩ := exists_isLeast_of_badIndex? (ascending_mergeSort entries) hcause
    simp only [atFault_iff_of_perm hperm] at hleast
    exact ⟨i, hleast, rfl⟩
  · cases h

/-- Entries are refused exactly when an index is at fault, and the complaint is about the least such index. -/
theorem ofUnordered_eq_error_iff {e : Fault} :
    ofUnordered size entries = .error e ↔
      ∃ i, IsLeast {j | AtFault size (entries.map Prod.fst) j} i ∧ e = .mismatch (complaint size i) := by
  refine ⟨exists_isLeast_of_ofUnordered, ?_⟩
  rintro ⟨i, hleast, rfl⟩
  cases hresult : ofUnordered size entries with
  | ok v =>
    obtain ⟨hd, hr⟩ := exists_ofUnordered_iff.mp ⟨v, hresult⟩
    exact absurd hleast.1 (not_atFault hd hr i)
  | error e =>
    obtain ⟨j, hleast', rfl⟩ := exists_isLeast_of_ofUnordered hresult
    rw [hleast.unique hleast']

/-- The order of the entries matters neither for the vector nor for the complaint. -/
theorem ofUnordered_eq_of_perm (h : others.Perm entries) : ofUnordered size others = ofUnordered size entries := by
  cases hresult : ofUnordered size entries with
  | ok v =>
    obtain ⟨hsize, hperm⟩ := ofUnordered_eq_ok_iff.mp hresult
    exact ofUnordered_eq_ok_iff.mpr ⟨hsize, hperm.trans h.symm⟩
  | error e =>
    obtain ⟨i, hleast, rfl⟩ := ofUnordered_eq_error_iff.mp hresult
    simp only [← atFault_iff_of_perm (h.map Prod.fst)] at hleast
    exact ofUnordered_eq_error_iff.mpr ⟨i, hleast, rfl⟩

/-- Entries in any order make up a vector exactly when their indices are pairwise distinct and within the size; it is
the vector that stores just these entries. Otherwise the least index that is beyond the size or repeated is reported.
Every order of the entries has the same outcome. -/
theorem built_in_any_order (size : Nat) (entries : List (Nat × Float)) :
    ((∃ v, ofUnordered size entries = .ok v) ↔
      (entries.map Prod.fst).Nodup ∧ ∀ i ∈ entries.map Prod.fst, i < size) ∧
    (∀ v, ofUnordered size entries = .ok v ↔ v.size = size ∧ v.entries.Perm entries) ∧
    (∀ e, ofUnordered size entries = .error e ↔
      ∃ i, IsLeast {j | AtFault size (entries.map Prod.fst) j} i ∧ e = .mismatch (complaint size i)) ∧
    ∀ others, others.Perm entries → ofUnordered size others = ofUnordered size entries :=
  ⟨exists_ofUnordered_iff, fun _ => ofUnordered_eq_ok_iff, fun _ => ofUnordered_eq_error_iff,
    fun _ => ofUnordered_eq_of_perm⟩

/-- The last number may come first; and of two indices at fault, the repeated one is less than the one beyond. -/
theorem built_in_any_order_ends :
    ofUnordered 4 [(3, 0.5), (0, 2.0)] = .ok ends ∧
      ofUnordered 4 [(0, 2.0), (3, 0.5)] = ofUnordered 4 [(3, 0.5), (0, 2.0)] ∧
      (∃ v, ofUnordered 5 [(4, 1.0), (0, 3.0)] = .ok v) ∧
      ofUnordered 5 [(1, 1.0), (7, 2.0), (1, 1.0)] = .error (.mismatch (.notAscending 1 1)) := by
  have hswap : [(0, 2.0), (3, 0.5)].Perm [((3 : Nat), (0.5 : Float)), (0, 2.0)] := List.Perm.swap _ _ []
  obtain ⟨-, hvector, -, horder⟩ := built_in_any_order 4 [(3, 0.5), (0, 2.0)]
  obtain ⟨hbuilds, -⟩ := built_in_any_order 5 [(4, 1.0), (0, 3.0)]
  obtain ⟨-, -, hrefused, -⟩ := built_in_any_order 5 [(1, 1.0), (7, 2.0), (1, 1.0)]
  refine ⟨(hvector ends).mpr ⟨rfl, hswap⟩, horder _ hswap, hbuilds.mpr (by decide), ?_⟩
  refine (hrefused _).mpr ⟨1, ⟨⟨by decide, .inr (by decide)⟩, ?_⟩, rfl⟩
  rintro j ⟨hj, -⟩
  have hall : ∀ j ∈ [1, 7, 1], 1 ≤ j := by decide
  exact hall j hj

end Scoring.SparseVector
