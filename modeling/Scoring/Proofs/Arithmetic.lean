import Mathlib.Data.Int.Order.Basic
import Mathlib.Data.Prod.Lex
import Mathlib.Order.Compare
import Scoring.Arithmetic

/-!
# Arithmetic — the order of doubles and the first of the greatest

`Arithmetic.compare` is defined through the comparisons of the machine. `rank` places every double in a linear order,
by sign, exponent and mantissa, and comparing doubles is comparing their ranks; that makes `compare` a total preorder.
The choice of the first greatest number rests on nothing else (`firstGreatest_spec`).
-/

namespace Scoring.Arithmetic

open Float.Model (UnpackedFloat)

/-! ## 1. Ranks -/

/-- Places in the order of doubles: a group, and within it an exponent and a mantissa. -/
abbrev Rank := Int ×ₗ Int ×ₗ Int

def Rank.of (group exponent mantissa : Int) : Rank :=
  toLex (group, toLex (exponent, mantissa))

theorem Rank.of_lt_of {g g' e e' m m' : Int} :
    Rank.of g e m < Rank.of g' e' m' ↔ g < g' ∨ g = g' ∧ (e < e' ∨ e = e' ∧ m < m') := by
  unfold Rank.of
  rw [Prod.Lex.toLex_lt_toLex, Prod.Lex.toLex_lt_toLex]

/-- Infinities, negative numbers, zeros, positive numbers and NaN are groups of their own; among negative numbers a
greater exponent or mantissa ranks lower. -/
def rankOf : UnpackedFloat → Rank
  | .infinity .negative => .of (-2) 0 0
  | .finite .negative m e _ => .of (-1) (-e) (-m)
  | .zero _ => .of 0 0 0
  | .finite .positive m e _ => .of 1 e m
  | .infinity .positive => .of 2 0 0
  | .notANumber => .of 3 0 0

def rank (x : Float) : Rank :=
  rankOf x.toModel.unpack

theorem then_eq_lt_iff {e e' : Int} {m m' : Nat} :
    (Ord.compare e e').then (Ord.compare m m') = .lt ↔ e < e' ∨ e = e' ∧ (m : Int) < m' := by
  rw [Ordering.then_eq_lt, compare_lt_iff_lt, compare_eq_iff_eq, compare_lt_iff_lt, Int.ofNat_lt]

theorem then_eq_gt_iff {e e' : Int} {m m' : Nat} :
    (Ord.compare e e').then (Ord.compare m m') = .gt ↔ -e < -e' ∨ -e = -e' ∧ -(m : Int) < -m' := by
  rw [Ordering.then_eq_gt, compare_gt_iff_gt, compare_eq_iff_eq, compare_gt_iff_gt]
  omega

/-- Numbers compare as their ranks do. -/
theorem compare_unpacked {a b : UnpackedFloat} (ha : a.isNaN = false) (hb : b.isNaN = false) :
    a.compare b = some .lt ↔ rankOf a < rankOf b := by
  cases a with
  | notANumber => cases ha
  | infinity s =>
    cases b with
    | notANumber => cases hb
    | infinity t =>
      cases s <;> cases t <;> dsimp only [UnpackedFloat.compare, rankOf] <;> simp [Rank.of_lt_of]
      decide
    | zero t => cases s <;> dsimp only [UnpackedFloat.compare, rankOf] <;> simp [Rank.of_lt_of]
    | finite t m e h =>
      cases s <;> cases t <;> dsimp only [UnpackedFloat.compare, rankOf] <;> simp [Rank.of_lt_of]
  | zero s =>
    cases b with
    | notANumber => cases hb
    | infinity t => cases t <;> dsimp only [UnpackedFloat.compare, rankOf] <;> simp [Rank.of_lt_of]
    | zero t => dsimp only [UnpackedFloat.compare, rankOf]; simp
    | finite t m e h => cases t <;> dsimp only [UnpackedFloat.compare, rankOf] <;> simp [Rank.of_lt_of]
  | finite s m e h =>
    cases b with
    | notANumber => cases hb
    | infinity t =>
      cases s <;> cases t <;> dsimp only [UnpackedFloat.compare, rankOf] <;> simp [Rank.of_lt_of]
    | zero t => cases s <;> dsimp only [UnpackedFloat.compare, rankOf] <;> simp [Rank.of_lt_of]
    -- numbers of one sign compare by exponent and then by mantissa
    | finite t m' e' h' =>
      cases s <;> cases t <;> dsimp only [UnpackedFloat.compare, rankOf] <;>
        simp only [Rank.of_lt_of, Option.some.injEq, Ordering.swap_eq_lt, then_eq_lt_iff,
          then_eq_gt_iff] <;> simp

theorem lt_iff_unpack (x y : Float) :
    x < y ↔ x.toModel.unpack.compare y.toModel.unpack = some .lt := by
  show (decide (x.toModel.lt y.toModel = true)) = true ↔ _
  rw [decide_eq_true_eq]
  unfold Float.Model.lt UnpackedFloat.lt
  exact beq_iff_eq

theorem rank_of_isNaN {x : Float} (h : x.isNaN = true) : rank x = .of 3 0 0 := by
  have hx : x.toModel.unpack.isNaN = true := h
  unfold rank
  cases hu : x.toModel.unpack with
  | notANumber => rfl
  | infinity | zero | finite =>
    rw [hu] at hx
    cases hx

theorem rank_lt_of_not_isNaN {x : Float} (h : x.isNaN = false) : rank x < .of 3 0 0 := by
  have hx : x.toModel.unpack.isNaN = false := h
  unfold rank
  cases hu : x.toModel.unpack with
  | notANumber =>
    rw [hu] at hx
    cases hx
  | zero s => exact Rank.of_lt_of.mpr (Or.inl (by decide))
  | infinity s => cases s <;> exact Rank.of_lt_of.mpr (Or.inl (by decide))
  | finite s m e hm => cases s <;> exact Rank.of_lt_of.mpr (Or.inl (by decide))

theorem lt_iff_rank {x y : Float} (hx : x.isNaN = false) (hy : y.isNaN = false) :
    x < y ↔ rank x < rank y := by
  rw [lt_iff_unpack]
  exact compare_unpacked hx hy

/-! ## 2. The order -/

theorem compare_eq_lt_iff {x y : Float} : compare x y = .lt ↔ rank x < rank y := by
  unfold compare
  by_cases hx : x.isNaN = true
  -- nothing ranks behind a NaN
  · have hnot : ¬ rank x < rank y := by
      rw [rank_of_isNaN hx, not_lt]
      by_cases hy : y.isNaN = true
      · exact (rank_of_isNaN hy).le
      · exact (rank_lt_of_not_isNaN (Bool.not_eq_true _ ▸ hy)).le
    rw [if_pos hx]
    refine iff_of_false ?_ hnot
    split <;> exact Ordering.noConfusion
  · rw [if_neg hx]
    rw [Bool.not_eq_true] at hx
    by_cases hy : y.isNaN = true
    · rw [if_pos hy, rank_of_isNaN hy]
      exact iff_of_true rfl (rank_lt_of_not_isNaN hx)
    · rw [if_neg hy]
      rw [Bool.not_eq_true] at hy
      rw [← lt_iff_rank hx hy]
      by_cases hlt : x < y
      · rw [if_pos hlt]
        exact iff_of_true rfl hlt
      · rw [if_neg hlt]
        refine iff_of_false ?_ hlt
        split <;> exact Ordering.noConfusion

/-- Turning a comparison round turns its answer round. -/
theorem compare_swap (x y : Float) : (compare x y).swap = compare y x := by
  unfold compare
  by_cases hx : x.isNaN = true
  · by_cases hy : y.isNaN = true
    · simp only [if_pos hx, if_pos hy, Ordering.swap_eq]
    · simp only [if_pos hx, if_neg hy, Ordering.swap_gt]
  · by_cases hy : y.isNaN = true
    · simp only [if_neg hx, if_pos hy, Ordering.swap_lt]
    · simp only [if_neg hx, if_neg hy]
      rw [Bool.not_eq_true] at hx hy
      by_cases hlt : x < y
      -- not both are less than the other
      · have hnot : ¬ y < x := by
          rw [lt_iff_rank hx hy] at hlt
          rw [lt_iff_rank hy hx]
          exact hlt.asymm
        rw [if_pos hlt, if_neg hnot, if_pos hlt, Ordering.swap_lt]
      · rw [if_neg hlt, if_neg hlt]
        split <;> rfl

theorem compare_eq_gt_iff {x y : Float} : compare x y = .gt ↔ rank y < rank x := by
  rw [← compare_eq_lt_iff, ← compare_swap x y, Ordering.swap_eq_lt]

/-! ## 3. The first of the greatest -/

structure FirstGreatest (xs : List Float) (k : Nat) (x : Float) : Prop where
  getElem : xs[k]? = some x
  greatest : ∀ y ∈ xs, compare y x ≠ .gt
  first : ∀ (j : Nat) (y : Float), j < k → xs[j]? = some y → compare y x = .lt

namespace FirstGreatest

variable {xs : List Float} {k : Nat} {best : Float}

/-- A number that is greater takes over. -/
theorem append_greater (h : FirstGreatest xs k best) {x : Float} (hx : compare best x = .lt) :
    FirstGreatest (xs ++ [x]) xs.length x where
  getElem := by simp
  greatest y hy := by
    rcases List.mem_append.mp hy with hy | hy
    · have := h.greatest y hy
      rw [Ne, compare_eq_gt_iff, not_lt] at this ⊢
      exact this.trans (compare_eq_lt_iff.mp hx).le
    · rw [List.mem_singleton.mp hy, Ne, compare_eq_gt_iff]
      exact lt_irrefl _
  first j y hj hy := by
    rw [List.getElem?_append_left hj] at hy
    have := h.greatest y (List.mem_of_getElem? hy)
    rw [Ne, compare_eq_gt_iff, not_lt] at this
    rw [compare_eq_lt_iff]
    exact this.trans_lt (compare_eq_lt_iff.mp hx)

/-- A number that is not greater comes too late. -/
theorem append_other (h : FirstGreatest xs k best) {x : Float} (hx : compare best x ≠ .lt) :
    FirstGreatest (xs ++ [x]) k best where
  getElem := by
    rw [List.getElem?_append_left (List.getElem?_eq_some_iff.mp h.getElem).1]
    exact h.getElem
  greatest y hy := by
    rcases List.mem_append.mp hy with hy | hy
    · exact h.greatest y hy
    · rw [List.mem_singleton.mp hy, Ne, compare_eq_gt_iff, ← compare_eq_lt_iff]
      exact hx
  first j y hj hy := by
    have hk := (List.getElem?_eq_some_iff.mp h.getElem).1
    rw [List.getElem?_append_left (by omega)] at hy
    exact h.first j y hj hy

end FirstGreatest

/-- What the search has seen has the best number so far as its first greatest one. -/
theorem firstGreatest_go_spec {seen rest : List Float} {place : Nat} {best : Float}
    (h : FirstGreatest seen place best) :
    ∃ x, FirstGreatest (seen ++ rest) (firstGreatest.go rest seen.length place best) x := by
  induction rest generalizing seen place best with
  | nil =>
    rw [List.append_nil]
    exact ⟨best, h⟩
  | cons x rest ih =>
    have hseen : (seen ++ [x]).length = seen.length + 1 := by simp
    rw [List.append_cons]
    unfold firstGreatest.go
    split
    · rename_i hx
      rw [← hseen]
      exact ih (h.append_greater hx)
    · rename_i hx
      rw [← hseen]
      exact ih (h.append_other hx)

/-- The search finds the first of the greatest numbers. -/
theorem firstGreatest_spec {xs : List Float} (h : 0 < xs.length) :
    ∃ x, FirstGreatest xs (firstGreatest xs) x := by
  cases xs with
  | nil => cases h
  | cons x rest =>
    have hfirst : FirstGreatest [x] 0 x := by
      refine ⟨rfl, fun y hy => ?_, fun j y hj => absurd hj (Nat.not_lt_zero j)⟩
      rw [List.mem_singleton.mp hy, Ne, compare_eq_gt_iff]
      exact lt_irrefl _
    exact firstGreatest_go_spec hfirst

theorem firstGreatest_lt {xs : List Float} (h : 0 < xs.length) : firstGreatest xs < xs.length := by
  obtain ⟨x, hx⟩ := firstGreatest_spec h
  exact (List.getElem?_eq_some_iff.mp hx.getElem).1

end Scoring.Arithmetic
