import Scoring.Proofs.Field.Scope
import Scoring.Proofs.Layout.Placement

/-!
# Failures — why declarations are not laid out

Declarations are refused for a field that does not resolve or has no span, for a parameter that is declared or
claimed twice, and for a cell that does not fit its field. The layout itself is never found at fault.
-/

namespace Scoring

/-- The failures of laying out a model: those of its fields, and what can be wrong with its cells. -/
def Fault.ofLayout : Fault → Bool
  | .unsupported (.continuousType _ _) | .unsupported (.optype _ _)
  | .unsupported (.sharedParameter _) | .unsupported (.continuousTerms _ _)
  | .malformed (.noCategories _) | .malformed (.repeatedCategory _ _)
  | .malformed (.repeatedParameter _) | .malformed (.undeclaredParameter _ _)
  | .malformed (.cellWithoutCategory _) | .malformed (.undeclaredCategory _ _)
  | .malformed (.repeatedCell _ _) => true
  | e => e.ofField

namespace Layout

theorem ofLayout_of_ofField {e : Fault} (h : e.ofField = true) : e.ofLayout = true := by
  unfold Fault.ofLayout
  split <;> first | rfl | exact h

theorem ofLayout_of_span {f : Field} {offset : Nat} {e : Fault}
    (h : Span.ofField f offset = .error e) : e.ofLayout = true := by
  unfold Span.ofField at h
  split at h
  · split at h <;> cases h
    rfl
  · split at h
    · cases h
      rfl
    · split at h <;> cases h
      rfl
  · cases h
    rfl

theorem ofLayout_of_claim {field : String} {span : Span} {slots : Slots} {c : Cell} {e : Fault}
    (h : claim field span slots c = .error e) : e.ofLayout = true := by
  unfold claim at h
  split at h
  · cases h
    rfl
  · split at h
    · cases h
      rfl
    · split at h <;> cases h
      rfl

theorem ofLayout_of_slotsOf {field : String} {span : Span} {cells : List Cell} {e : Fault}
    (h : slotsOf field span cells = .error e) : e.ofLayout = true := by
  unfold slotsOf at h
  split at h
  · cases h
  · cases h
    rfl
  · obtain ⟨slots, c, -, hc⟩ := Outcome.exists_of_foldlM_eq_error h
    exact ofLayout_of_claim hc
  · cases h

theorem ofLayout_of_placeFields {s : Scope} {start : Nat} {es : List (String × List Cell)} {e : Fault}
    (h : placeFields s start es = .error e) : e.ofLayout = true := by
  induction es generalizing start with
  | nil => cases h
  | cons entry rest ih =>
    unfold placeFields at h
    simp only [Outcome.bind_eq_error] at h
    rcases h with h | ⟨f, -, h | ⟨span, -, h | ⟨slots, -, h | ⟨behind, -, h⟩⟩⟩⟩
    · exact ofLayout_of_ofField (Scope.ofField_of_resolve h)
    · exact ofLayout_of_span h
    · exact ofLayout_of_slotsOf h
    · exact ih h
    · cases h

theorem ofLayout_of_checkParameters {seen ps : List String} {e : Fault}
    (h : checkParameters seen ps = .error e) : e.ofLayout = true := by
  induction ps generalizing seen with
  | nil => cases h
  | cons p rest ih =>
    unfold checkParameters at h
    split at h
    · cases h
      rfl
    · exact ih h

theorem ofLayout_of_checkCells {declared claimed : List String} {cells : List Cell} {e : Fault}
    (h : checkCells declared claimed cells = .error e) : e.ofLayout = true := by
  induction cells generalizing claimed with
  | nil => cases h
  | cons c rest ih =>
    unfold checkCells at h
    split at h
    · cases h
      rfl
    · split at h
      · cases h
        rfl
      · exact ih h

/-- Laying out fails for want of a field or for a cell that does not fit, never for its own sizes. -/
theorem ofLayout_of_arrange {d : Declarations} {s : Scope} {e : Fault} (h : arrange d s = .error e) :
    e.ofLayout = true := by
  rw [arrange_eq] at h
  simp only [Outcome.bind_eq_error] at h
  rcases h with h | ⟨_, -, h | ⟨_, -, h | ⟨fields, -, h⟩⟩⟩
  · exact ofLayout_of_checkParameters h
  · exact ofLayout_of_checkCells h
  · exact ofLayout_of_placeFields h
  · cases h

end Layout

end Scoring
