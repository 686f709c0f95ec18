import Mathlib.Data.List.Nodup
import Mathlib.Data.List.Perm.Basic
import Scoring.Field.Observation
import Scoring.Proofs.Field.Resolution

/-!
# Reordering — scopes whose fields are listed in another order

A scope is only ever looked into: by name in the dictionary and in the mining schema, by name from behind in the
derived fields. Where names are not used twice, no look-up depends on the order of a list, and scopes that answer
every look-up alike resolve every name alike, to the same field or to the same failure (`Scope.Agrees.resolve_eq`).
-/

namespace Scoring

open Spec

variable {α : Type}

/-! ## 1. Searching in any order -/

/-- Where at most one item of a list is looked for, any order of the list shows the same one. -/
theorem find?_eq_of_perm {p : α → Bool} {xs ys : List α} (h : xs.Perm ys)
    (hone : (xs.filter p).length ≤ 1) : xs.find? p = ys.find? p := by
  have hperm := h.filter p
  have hfilter : xs.filter p = ys.filter p := by
    match hxs : xs.filter p with
    | [] => exact (List.nil_perm.mp (hxs ▸ hperm)).symm
    | [x] => exact (List.perm_singleton.mp (hxs ▸ hperm.symm)).symm
    | x :: y :: rest => simp [hxs] at hone
  rw [← List.head?_filter, ← List.head?_filter, hfilter]

/-- Distinct names are found once at most. -/
theorem length_filter_le_one {name : α → String} {xs : List α} (h : (xs.map name).Nodup) (n : String) :
    (xs.filter fun x => name x == n).length ≤ 1 := by
  have hmap : (xs.filter fun x => name x == n).map name =
      List.replicate (xs.filter fun x => name x == n).length n := by
    refine List.eq_replicate_iff.mpr ⟨List.length_map _, fun m hm => ?_⟩
    obtain ⟨x, hx, rfl⟩ := List.mem_map.mp hm
    exact eq_of_beq (List.mem_filter.mp hx).2
  have hsublist : (xs.filter fun x => name x == n).Sublist xs := List.filter_sublist
  have hnodup := h.sublist (hsublist.map name)
  rw [hmap] at hnodup
  exact List.nodup_replicate.mp hnodup

theorem find?_name_eq_of_perm {name : α → String} {xs ys : List α} (h : xs.Perm ys)
    (hnodup : (xs.map name).Nodup) (n : String) :
    (xs.find? fun x => name x == n) = ys.find? fun x => name x == n :=
  find?_eq_of_perm h (length_filter_le_one hnodup n)

namespace Scope

theorem derived?_append (name : String) (ds es : List DerivedField) :
    derived? name (ds ++ es) = (derived? name es).or (derived? name ds) := by
  unfold derived?
  rw [List.reverse_append, List.find?_append]

theorem derived?_eq_of_perm {ds es : List DerivedField} (h : ds.Perm es)
    (hnodup : (ds.map (·.name)).Nodup) (name : String) : derived? name ds = derived? name es := by
  unfold derived?
  have hreverse : ds.reverse.Perm es.reverse := (ds.reverse_perm.trans h).trans es.reverse_perm.symm
  refine find?_name_eq_of_perm hreverse ?_ name
  rw [List.map_reverse, List.nodup_reverse]
  exact hnodup

/-! ## 2. Scopes that answer alike -/

/-- Two scopes answer every look-up alike. -/
structure Agrees (s s' : Scope) : Prop where
  raw : ∀ name, s'.dictionary.field? name = s.dictionary.field? name
  derived : ∀ name, derived? name s'.derived = derived? name s.derived
  replacement : ∀ raw, s'.replacement? raw = s.replacement? raw

namespace Agrees

variable {s s' : Scope}

/-- Following a name passes through the same derived fields, so it ends alike. -/
theorem trace_eq (h : s.Agrees s') (name : String) (visited : List String) :
    s'.trace (s'.unvisited visited) name = s.trace (s.unvisited visited) name := by
  generalize hu : s.unvisited visited = unvisited
  -- along the way in the one scope; the other scope has visited the same names
  induction unvisited, name using Scope.trace.induct (s := s) generalizing visited with
  | case1 unvisited name raw hraw =>
    rw [trace_of_raw hraw, trace_of_raw ((h.raw name).trans hraw)]
  | case2 unvisited name hraw d hd _ ih =>
    have hd' : derived? name (s'.unvisited visited) = some d := by
      rw [derived?_unvisited, h.derived, ← derived?_unvisited, hu, hd]
    rw [trace_of_derived hraw hd, trace_of_derived ((h.raw name).trans hraw) hd', without_unvisited]
    have hrest := fun source => ih source (name :: visited) (by rw [← without_unvisited, hu])
    simp only [hrest]
  | case3 unvisited name hraw hd _ _ | case4 unvisited name hraw hd _ =>
    have hd' : derived? name (s'.unvisited visited) = none := by
      rw [derived?_unvisited, h.derived, ← derived?_unvisited, hu, hd]
    rw [trace_of_end hraw hd, trace_of_end ((h.raw name).trans hraw) hd', h.derived]

/-- A name resolves to the same field, or fails to resolve for the same reason. -/
theorem resolve_eq (h : s.Agrees s') (name : String) : s'.resolve name = s.resolve name := by
  have htrace := h.trace_eq name []
  rw [unvisited_nil, unvisited_nil] at htrace
  unfold resolve supplied declaredTypes
  rw [htrace]
  simp only [h.raw, h.derived, h.replacement]

theorem ofNames_eq (h : s.Agrees s') (names : List String) :
    Intake.ofNames s' names = Intake.ofNames s names := by
  unfold Intake.ofNames
  rw [funext h.resolve_eq]

end Agrees

end Scope

/-! ## 3. Mining schemas -/

namespace Spec.MiningSchema

structure Distinct (schema : MiningSchema) : Prop where
  names : (schema.fields.map (·.name)).Nodup
  target : (schema.fields.filter fun f => f.usage = .target).length ≤ 1
  predicted : (schema.fields.filter fun f => f.usage = .predicted).length ≤ 1

variable {schema schema' : MiningSchema}

theorem field?_eq_of_perm (h : schema.fields.Perm schema'.fields) (hd : schema.Distinct) (name : String) :
    schema'.field? name = schema.field? name :=
  (find?_name_eq_of_perm h hd.names name).symm

theorem target?_eq_of_perm (h : schema.fields.Perm schema'.fields) (hd : schema.Distinct) :
    schema'.target? = schema.target? := by
  unfold target?
  rw [find?_eq_of_perm h hd.target, find?_eq_of_perm h hd.predicted]

end Spec.MiningSchema

end Scoring
