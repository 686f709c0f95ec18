import Scoring.Proofs.Layout.Span
import Scoring.Proofs.Outcome
import Scoring.Target

/-!
# Target — the classes that a target field yields

The two classes of a linear classifier are found when a single category is modeled and a single declared value has
another key (`ofCategories_eq_ok`). They split the target field: the negative one is declared, and every declared value
has the key of one of them (`Classes.Splits`). Nobody looks the modeled category up, so it may be missing from the
declared values; then the target declares the negative class alone (`declared_positive_iff`).
-/

namespace Scoring

open Spec (DataField)

namespace Classes

variable {categories : List String} {target : DataField} {c : Classes}

/-! ## 1. What is modeled -/

/-- A category is modeled when it is named, and no other is. -/
theorem modeled_eq_ok {positive : String} :
    modeled categories target = .ok positive ↔ categories ≠ [] ∧ ∀ x ∈ categories, x = positive := by
  rw [← eraseDups_eq_singleton_iff]
  unfold modeled
  split
  · rename_i one hone
    rw [hone, Except.ok.injEq, List.singleton_inj]
  · rename_i hnone
    simp [hnone]
  · rename_i hother hseveral
    simp only [reduceCtorEq, false_iff]
    exact hother positive

/-! ## 2. What is declared -/

/-- Classes are the same when their keys are. -/
def Declared (target : DataField) (category : String) : Prop :=
  key target category ∈ target.values.map (key target)

/-- The negative class is among the values of the target field and is not the positive one, and every value is one of
the two. -/
structure Splits (c : Classes) (target : DataField) : Prop where
  negative_mem : c.negative ∈ target.values
  key_ne : key target c.positive ≠ key target c.negative
  key_eq_or : ∀ v ∈ target.values, key target v = key target c.positive ∨ key target v = key target c.negative

theorem splits_of_filter (h : (target.values.filter fun v => key target v != key target c.positive) = [c.negative]) :
    c.Splits target := by
  have hmem : ∀ v, v ∈ target.values ∧ key target v ≠ key target c.positive ↔ v = c.negative := by
    intro v
    rw [← List.mem_singleton, ← h, List.mem_filter, bne_iff_ne]
  have hnegative := (hmem c.negative).mpr rfl
  refine ⟨hnegative.1, Ne.symm hnegative.2, fun v hv => ?_⟩
  by_cases hkey : key target v = key target c.positive
  · exact Or.inl hkey
  · exact Or.inr (congrArg (key target) ((hmem v).mp ⟨hv, hkey⟩))

/-- A field that two classes split has two different keys at most. -/
theorem Splits.length_le (h : c.Splits target) : (target.values.map (key target)).eraseDups.length ≤ 2 := by
  have hsubset : (target.values.map (key target)).eraseDups ⊆ [key target c.positive, key target c.negative] := by
    intro k hk
    obtain ⟨v, hv, rfl⟩ := List.mem_map.mp (List.mem_eraseDups.mp hk)
    simpa using h.key_eq_or v hv
  exact ((nodup_eraseDups _).subperm hsubset).length_le

/-- The classes are found exactly when one category is modeled and one declared value has another key. Three declared
classes fail for their number, but would also leave more than one other value. -/
theorem ofCategories_eq_ok :
    ofCategories categories target = .ok c ↔ (categories ≠ [] ∧ ∀ x ∈ categories, x = c.positive) ∧
      (target.values.filter fun v => key target v != key target c.positive) = [c.negative] := by
  unfold ofCategories
  rw [← @modeled_eq_ok categories target, Outcome.bind_eq_ok]
  constructor
  · rintro ⟨positive, hpositive, h⟩
    simp only at h
    split at h
    · cases h
    · split at h
      · rename_i negative hnegative
        cases h
        exact ⟨hpositive, hnegative⟩
      · cases h
      · cases h
  · rintro ⟨hpositive, hnegative⟩
    refine ⟨c.positive, hpositive, ?_⟩
    have hcount := (splits_of_filter hnegative).length_le
    simp only [hnegative, if_neg (Nat.not_lt.mpr hcount)]

theorem splits_of_ofCategories (h : ofCategories categories target = .ok c) : c.Splits target :=
  splits_of_filter (ofCategories_eq_ok.mp h).2

theorem Splits.declared_negative (h : c.Splits target) : Declared target c.negative :=
  List.mem_map_of_mem h.negative_mem

/-- The modeled class is declared, except where the target declares the other class and nothing else. -/
theorem declared_positive_iff (h : ofCategories categories target = .ok c) :
    Declared target c.positive ↔ target.values ≠ [c.negative] := by
  obtain ⟨-, hnegative⟩ := ofCategories_eq_ok.mp h
  constructor
  · intro hdeclared hone
    have hkey : key target c.positive = key target c.negative := by
      simpa [Declared, hone] using hdeclared
    exact (splits_of_ofCategories h).key_ne hkey
  · intro hvalues
    by_contra hundeclared
    -- no value has the key of the modeled class, so all of them are left over
    have hall : ∀ v ∈ target.values, (key target v != key target c.positive) = true := by
      intro v hv
      rw [bne_iff_ne]
      intro hkey
      exact hundeclared (List.mem_map.mpr ⟨v, hv, hkey⟩)
    rw [List.filter_eq_self.mpr hall] at hnegative
    exact hvalues hnegative

end Classes

end Scoring
