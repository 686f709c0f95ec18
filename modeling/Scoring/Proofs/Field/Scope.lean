import Scoring.Field.Scope
import Scoring.Proofs.Outcome

/-!
# Scope — what resolving a name can give

A name resolves to a field of that name. What can go wrong lies with the document and with the fields on the
way: a literal, a derivation, or a name that leads nowhere.
-/

namespace Scoring

open Spec

/-- The failures of following a name through the fields in sight. -/
def Fault.ofField : Fault → Bool
  | .unsupported (.literalType _) | .unsupported (.derivation _ _) | .unsupported (.noReplacement _)
  | .malformed (.notDouble _) | .malformed (.notFloat _) | .malformed (.notInteger _)
  | .malformed (.undeclaredField _) | .malformed (.cycle _) => true
  | _ => false

theorem Scalar.ofField_of_parse {literal : String} {type : DataType} {e : Fault}
    (h : Scalar.parse literal type = .error e) : e.ofField = true := by
  unfold Scalar.parse at h
  cases type <;> simp only at h
  case double => split at h <;> cases h; rfl
  case float => split at h <;> cases h; rfl
  case integer => split at h <;> cases h; rfl
  case string => cases h
  case boolean => cases h; rfl
  case date => cases h; rfl

namespace Scope

theorem ofField_of_derivation {d : DerivedField} {e : Fault} (h : derivation d = .error e) :
    e.ofField = true := by
  unfold derivation at h
  simp only at h
  split at h
  · split at h
    · split at h
      · rw [Outcome.bind_eq_error] at h
        rcases h with h | ⟨_, -, h⟩
        · exact Scalar.ofField_of_parse h
        · cases h
      · cases h
        rfl
      · cases h
        rfl
    · cases h
      rfl
  · cases h
    rfl

/-! ## 1. One step of the way -/

variable {s : Scope} {unvisited : List DerivedField} {name : String}

theorem trace_of_raw {raw : DataField} (h : s.dictionary.field? name = some raw) :
    s.trace unvisited name = .ok (raw, []) := by
  rw [trace, h]

theorem trace_of_derived {d : DerivedField} (h : s.dictionary.field? name = none)
    (hd : derived? name unvisited = some d) :
    s.trace unvisited name = (do
      let (source, replacement) ← derivation d
      let (raw, replacements) ← s.trace (without name unvisited) source
      .ok (raw, replacements ++ [replacement]) : Outcome (DataField × List Scalar)) := by
  rw [trace, h]
  simp only
  split
  · rename_i d' hd'
    rw [hd, Option.some.injEq] at hd'
    rw [hd']
  · rename_i hd'
    rw [hd] at hd'
    cases hd'

/-- A name that leads no further is one that was passed through before, or is not declared at all. -/
theorem trace_of_end (h : s.dictionary.field? name = none) (hd : derived? name unvisited = none) :
    s.trace unvisited name = .error (.malformed
      (if (derived? name s.derived).isSome then .cycle name else .undeclaredField name)) := by
  rw [trace, h]
  simp only
  split
  · rename_i d' hd'
    rw [hd] at hd'
    cases hd'
  · cases derived? name s.derived <;> rfl

/-! ## 2. Failures -/

theorem ofField_of_trace {e : Fault} (h : s.trace unvisited name = .error e) : e.ofField = true := by
  -- along the way: it ends at a raw field, or at a name that was met before or is unknown
  induction unvisited, name using Scope.trace.induct (s := s) with
  | case1 unvisited name raw hraw =>
    rw [trace_of_raw hraw] at h
    cases h
  | case2 unvisited name hraw d hd _ ih =>
    rw [trace_of_derived hraw hd, Outcome.bind_eq_error] at h
    rcases h with h | ⟨⟨source, replacement⟩, -, h⟩
    · exact ofField_of_derivation h
    · simp only [Outcome.bind_eq_error] at h
      rcases h with h | ⟨_, -, h⟩
      · exact ih source h
      · cases h
  | case3 unvisited name hraw hd d hcycle =>
    rw [trace_of_end hraw hd, hcycle] at h
    cases h
    rfl
  | case4 unvisited name hraw hd hcycle =>
    rw [trace_of_end hraw hd, hcycle] at h
    cases h
    rfl

theorem ofField_of_resolve {e : Fault} (h : s.resolve name = .error e) : e.ofField = true := by
  unfold resolve at h
  rw [Outcome.bind_eq_error] at h
  rcases h with h | ⟨⟨raw, replacements⟩, -, h⟩
  · exact ofField_of_trace h
  · simp only [Outcome.bind_eq_error] at h
    rcases h with h | ⟨_, -, h⟩
    · unfold supplied at h
      split at h
      · rw [Outcome.bind_eq_error] at h
        rcases h with h | ⟨_, -, h⟩
        · exact Scalar.ofField_of_parse h
        · cases h
      · cases h
    · cases h

/-! ## 3. Fields -/

theorem name_of_resolve {s : Scope} {name : String} {f : Field} (h : s.resolve name = .ok f) :
    f.name = name := by
  unfold resolve at h
  simp only [Outcome.bind_eq_ok] at h
  obtain ⟨_, -, _, -, h⟩ := h
  cases h
  rfl

end Scope

end Scoring
