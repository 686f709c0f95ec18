import Scoring.Proofs.Field.Scope

/-!
# Resolution — the way from a name to its raw field

A name of the data dictionary is a raw field. Any other name means the derived field that is listed last under it, and
that field passes the name of its source on. `Scope.Leads` describes such a way hop by hop, without visited names and
without recursion on them. `resolve_follows` says that resolving finds exactly the ways that reach the dictionary and
meet no name twice, and which values the field then has.
-/

namespace Scoring

open Spec

/-! ## 1. Hops -/

/-- A derived field is the constant `w` where `source` is missing, else `source`. -/
def Spec.DerivedField.Replaces (d : DerivedField) (source : String) (w : Scalar) : Prop :=
  ∃ literal, d.expression =
      .apply "if" [.apply "isMissing" [.fieldRef source], .constant (some literal), .fieldRef source] ∧
    Scalar.parse literal d.dataType = .ok w

namespace Scope

/-- The last derived field that is listed under a name. -/
def Lists (s : Scope) (name : String) (d : DerivedField) : Prop :=
  d.name = name ∧ ∃ earlier later, s.derived = earlier ++ d :: later ∧ ∀ d' ∈ later, d'.name ≠ name

/-- Derived fields that are passed through one after the other, with their constants. -/
abbrev Hops := List (DerivedField × Scalar)

namespace Hops

def names (hops : Hops) : List String :=
  hops.map (·.1.name)

def constants (hops : Hops) : List Scalar :=
  (hops.map (·.2)).reverse

end Hops

inductive Leads (s : Scope) : String → Hops → String → Prop
  | here (name : String) : Leads s name [] name
  | hop {name source last : String} {d : DerivedField} {w : Scalar}
      {hops : Hops} (derived : s.dictionary.field? name = none)
      (listed : s.Lists name d) (form : d.Replaces source w) (rest : Leads s source hops last) :
      Leads s name ((d, w) :: hops) last

theorem derived?_eq_some_iff {s : Scope} {name : String} {d : DerivedField} :
    derived? name s.derived = some d ↔ s.Lists name d := by
  unfold derived? Lists
  rw [List.find?_eq_some_iff_append]
  simp only [beq_iff_eq, Bool.not_eq_eq_eq_not, Bool.not_true, beq_eq_false_iff_ne]
  refine and_congr_right fun _ => ?_
  -- what comes first in the reversed list comes last in the list
  constructor
  · rintro ⟨before, after, heq, hbefore⟩
    refine ⟨after.reverse, before.reverse, ?_, fun d' hd' => hbefore d' (List.mem_reverse.mp hd')⟩
    rw [List.reverse_eq_iff] at heq
    simpa using heq
  · rintro ⟨earlier, later, heq, hlater⟩
    refine ⟨later.reverse, earlier.reverse, ?_, fun d' hd' => hlater d' (List.mem_reverse.mp hd')⟩
    rw [heq]
    simp

/-- The only derivations that are read are those of that form. -/
theorem derivation_eq_ok {d : DerivedField} {source : String} {w : Scalar} :
    derivation d = .ok (source, w) ↔ d.Replaces source w := by
  unfold derivation DerivedField.Replaces
  constructor
  · intro h
    simp only at h
    split at h
    · rename_i source' constant again hexpression
      split at h
      · rename_i hagain
        split at h
        · rename_i literal
          rw [Outcome.bind_eq_ok] at h
          obtain ⟨w', hw', heq⟩ := h
          cases heq
          exact ⟨literal, by rw [hexpression, hagain], hw'⟩
        · cases h
        · cases h
      · cases h
    · cases h
  · rintro ⟨literal, hexpression, hw⟩
    rw [hexpression]
    simp only [if_true]
    rw [hw, Outcome.ok_bind]

variable {s : Scope}

/-- A name that is passed through is no name of the dictionary, and means a derived field. -/
theorem Leads.of_mem_names {name last : String} {hops : Hops}
    (h : s.Leads name hops last) {n : String} (hn : n ∈ hops.names) :
    s.dictionary.field? n = none ∧ ∃ d, s.Lists n d := by
  induction h with
  | here => simp [Hops.names] at hn
  | @hop _ _ _ d _ _ hderived hlisted _ _ ih =>
    rcases List.mem_cons.mp hn with rfl | hn
    · obtain rfl := hlisted.1
      exact ⟨hderived, d, hlisted⟩
    · exact ih hn

/-! ## 2. Following a way -/

def unvisited (s : Scope) (visited : List String) : List DerivedField :=
  s.derived.filter fun d => d.name ∉ visited

theorem unvisited_nil (s : Scope) : s.unvisited [] = s.derived := by
  simp [unvisited]

theorem without_unvisited (s : Scope) (name : String) (visited : List String) :
    without name (s.unvisited visited) = s.unvisited (name :: visited) := by
  unfold without unvisited
  rw [List.filter_filter]
  refine List.filter_congr fun d _ => ?_
  by_cases h : d.name = name <;> simp [h]

/-- A name that was visited means no derived field any more, and any other name still means the same one. -/
theorem derived?_unvisited (s : Scope) (name : String) (visited : List String) :
    derived? name (s.unvisited visited) =
      if name ∈ visited then none else derived? name s.derived := by
  unfold derived? unvisited
  rw [← List.filter_reverse, List.find?_filter]
  split
  · rename_i hvisited
    refine List.find?_eq_none.mpr fun d _ h => ?_
    simp only [decide_eq_true_eq, beq_iff_eq] at h
    exact h.1 (h.2 ▸ hvisited)
  · rename_i hvisited
    congr 1
    funext d
    by_cases h : d.name = name <;> simp [h, hvisited]

/-- Tracing a name goes along its way, and goes on from the end of the way without the names passed through. -/
theorem trace_of_leads {name last : String} {hops : Hops}
    (h : s.Leads name hops last) {visited : List String} (hnodup : hops.names.Nodup)
    (hfresh : ∀ n ∈ hops.names, n ∉ visited) :
    s.trace (s.unvisited visited) name = (do
      let (raw, replacements) ← s.trace (s.unvisited (hops.names.reverse ++ visited)) last
      .ok (raw, replacements ++ hops.constants) : Outcome (DataField × List Scalar)) := by
  induction h generalizing visited with
  | here name =>
    cases htrace : s.trace (s.unvisited visited) name <;> simp [Hops.names, Hops.constants, htrace]
  | @hop name source last d w hops hderived hlisted hform _ ih =>
    obtain ⟨rfl, -⟩ := id hlisted
    simp only [Hops.names, List.map_cons, List.nodup_cons, List.forall_mem_cons] at hnodup hfresh
    have hd : derived? d.name (s.unvisited visited) = some d := by
      rw [derived?_unvisited, if_neg hfresh.1, derived?_eq_some_iff]
      exact hlisted
    rw [trace_of_derived hderived hd, derivation_eq_ok.mpr hform, Outcome.ok_bind]
    have hvisited : (Hops.names ((d, w) :: hops)).reverse ++ visited =
        hops.names.reverse ++ d.name :: visited := by simp [Hops.names]
    rw [hvisited]
    simp only [without_unvisited]
    -- the rest of the way meets neither the visited names nor this one
    rw [ih hnodup.2]
    · cases s.trace (s.unvisited (hops.names.reverse ++ d.name :: visited)) last <;>
        simp [Hops.constants]
    · intro n hn
      rw [List.mem_cons, not_or]
      exact ⟨fun heq => hnodup.1 (heq ▸ hn), hfresh.2 n hn⟩

/-- What is traced to a raw field has a way to it. -/
theorem exists_leads_of_trace {name : String} {visited : List String} {raw : DataField}
    {replacements : List Scalar} (h : s.trace (s.unvisited visited) name = .ok (raw, replacements)) :
    ∃ hops last, s.Leads name hops last ∧ hops.names.Nodup ∧ (∀ n ∈ hops.names, n ∉ visited) ∧
      s.dictionary.field? last = some raw := by
  generalize hu : s.unvisited visited = unvisited at h
  induction unvisited, name using Scope.trace.induct (s := s) generalizing visited replacements with
  | case1 unvisited name raw' hraw =>
    rw [trace_of_raw hraw] at h
    cases h
    exact ⟨[], name, .here name, List.nodup_nil, by simp [Hops.names], hraw⟩
  | case2 unvisited name hraw d hd _ ih =>
    rw [trace_of_derived hraw hd, Outcome.bind_eq_ok] at h
    obtain ⟨⟨source, w⟩, hderivation, h⟩ := h
    rw [Outcome.bind_eq_ok] at h
    obtain ⟨⟨raw', rest⟩, htrace, heq⟩ := h
    cases heq
    rw [← hu, derived?_unvisited] at hd
    split at hd
    · cases hd
    · rename_i hvisited
      rw [derived?_eq_some_iff] at hd
      obtain ⟨hops, last, hleads, hnodup, hfresh, hlast⟩ :=
        ih source (by rw [← hu, without_unvisited]) htrace
      obtain ⟨rfl, -⟩ := id hd
      refine ⟨(d, w) :: hops, last, .hop hraw hd (derivation_eq_ok.mp hderivation) hleads, ?_, ?_, hlast⟩
      · exact List.nodup_cons.mpr ⟨fun hmem => hfresh _ hmem List.mem_cons_self, hnodup⟩
      · refine List.forall_mem_cons.mpr ⟨hvisited, fun n hn hmem => ?_⟩
        exact hfresh n hn (List.mem_cons_of_mem _ hmem)
  | case3 unvisited name hraw hd d hcycle =>
    rw [trace_of_end hraw hd] at h
    cases h
  | case4 unvisited name hraw hd hcycle =>
    rw [trace_of_end hraw hd] at h
    cases h

/-- A way that reaches the dictionary is traced to its end. -/
theorem trace_eq_ok {name last : String} {hops : Hops} {raw : DataField}
    (h : s.Leads name hops last) (hnodup : hops.names.Nodup)
    (hraw : s.dictionary.field? last = some raw) :
    s.trace s.derived name = .ok (raw, hops.constants) := by
  rw [← unvisited_nil, trace_of_leads h hnodup (by simp), trace_of_raw hraw, Outcome.ok_bind]
  rfl

/-- A way that comes back to one of its names is a circle. -/
theorem trace_eq_cycle {name last : String} {hops : Hops}
    (h : s.Leads name hops last) (hnodup : hops.names.Nodup) (hlast : last ∈ hops.names) :
    s.trace s.derived name = .error (.malformed (.cycle last)) := by
  obtain ⟨hderived, d, hd⟩ := h.of_mem_names hlast
  have hnone : derived? last (s.unvisited (hops.names.reverse ++ [])) = none := by
    rw [derived?_unvisited, if_pos (by simpa using hlast)]
  have hend := trace_of_end hderived hnone
  rw [derived?_eq_some_iff.mpr hd] at hend
  rw [← unvisited_nil, trace_of_leads h hnodup (by simp), hend]
  rfl

/-! ## 3. Fields -/

/-- The mining schema supplies one value or none; it fails only where its literal cannot be read. -/
theorem supplied_eq_ok {raw : DataField} {ws : List Scalar} :
    s.supplied raw = .ok ws ↔ (s.replacement? raw = none ∧ ws = []) ∨
      ∃ literal w, s.replacement? raw = some literal ∧ Scalar.parse literal raw.dataType = .ok w ∧
        ws = [w] := by
  unfold supplied
  cases hliteral : s.replacement? raw with
  | none => simp [eq_comm]
  | some literal =>
    simp only [reduceCtorEq, false_and, false_or, Outcome.bind_eq_ok, Except.ok.injEq]
    constructor
    · rintro ⟨w, hw, rfl⟩
      exact ⟨literal, w, rfl, hw, rfl⟩
    · rintro ⟨_, w, heq, hw, rfl⟩
      cases heq
      exact ⟨w, hw, rfl⟩

/-- A field has the types of the first name on its way. -/
theorem declaredTypes_of_leads {name last : String} {hops : Hops}
    {raw : DataField} (h : s.Leads name hops last) (hraw : s.dictionary.field? last = some raw) :
    s.declaredTypes name raw =
      hops.head?.elim (raw.optype, raw.dataType) fun hop => (hop.1.optype, hop.1.dataType) := by
  unfold declaredTypes
  cases h with
  | here =>
    rw [hraw]
    rfl
  | hop hderived hlisted =>
    rw [hderived, derived?_eq_some_iff.mpr hlisted]
    rfl

end Scope

/-- Where a record has no values, the first replacement stands in. -/
theorem Field.values_of_get_eq_nil {f : Field} {r : Record} (h : r.get f.raw.name = []) :
    f.values r = f.replacements.head?.toList := by
  cases hw : f.replacements with
  | nil => exact f.values_of_absent r h hw
  | cons w ws => exact f.values_of_missing r h hw

namespace Scope

variable {s : Scope}

/-- What a name resolves to, in terms of its way: it fails only where the literal of the mining schema cannot be
read. -/
theorem resolve_of_leads {name last : String} {hops : Hops} {raw : DataField}
    (h : s.Leads name hops last) (hnodup : hops.names.Nodup)
    (hraw : s.dictionary.field? last = some raw) :
    s.resolve name = (do
      let first ← s.supplied raw
      let types := hops.head?.elim (raw.optype, raw.dataType) fun hop => (hop.1.optype, hop.1.dataType)
      .ok ⟨name, raw, types.1, types.2, first ++ hops.constants⟩ : Outcome Field) := by
  unfold resolve
  rw [trace_eq_ok h hnodup hraw, Outcome.ok_bind]
  simp only [declaredTypes_of_leads h hraw]

/-- A name of the dictionary resolves to its own field. -/
theorem resolve_of_field? {name : String} {raw : DataField} (hraw : s.dictionary.field? name = some raw) :
    s.resolve name = (do
      let first ← s.supplied raw
      .ok ⟨name, raw, raw.optype, raw.dataType, first⟩ : Outcome Field) := by
  rw [resolve_of_leads (.here name) List.nodup_nil hraw]
  simp only [List.head?_nil, Option.elim_none, Hops.constants, List.map_nil, List.reverse_nil, List.append_nil]

/-- A name resolves exactly when its way reaches the dictionary and the literal of the mining schema can be read. -/
theorem exists_resolve_iff {name : String} :
    (∃ f, s.resolve name = .ok f) ↔
      ∃ hops last raw, s.Leads name hops last ∧ hops.names.Nodup ∧
        s.dictionary.field? last = some raw ∧
        ∀ literal, s.replacement? raw = some literal → ∃ w, Scalar.parse literal raw.dataType = .ok w := by
  constructor
  · rintro ⟨f, hf⟩
    obtain ⟨⟨raw, replacements⟩, htrace, hrest⟩ := Outcome.bind_eq_ok.mp hf
    obtain ⟨ws, hws, -⟩ := Outcome.bind_eq_ok.mp hrest
    rw [← unvisited_nil] at htrace
    obtain ⟨hops, last, hleads, hnodup, -, hraw⟩ := exists_leads_of_trace htrace
    refine ⟨hops, last, raw, hleads, hnodup, hraw, fun literal hliteral => ?_⟩
    rcases supplied_eq_ok.mp hws with ⟨hnone, -⟩ | ⟨literal', w, hsome, hw, -⟩
    · rw [hliteral] at hnone
      cases hnone
    · rw [hliteral] at hsome
      cases hsome
      exact ⟨w, hw⟩
  · rintro ⟨hops, last, raw, hleads, hnodup, hraw, hparse⟩
    rw [resolve_of_leads hleads hnodup hraw]
    cases hliteral : s.replacement? raw with
    | none =>
      rw [supplied_eq_ok.mpr (.inl ⟨hliteral, rfl⟩)]
      exact ⟨_, rfl⟩
    | some literal =>
      obtain ⟨w, hw⟩ := hparse literal hliteral
      rw [supplied_eq_ok.mpr (.inr ⟨literal, w, hliteral, hw, rfl⟩)]
      exact ⟨_, rfl⟩

/-- Without values in a record, the value of the mining schema comes before the constants of the way. -/
theorem values_of_supplied {raw : DataField} {ws : List Scalar} (hws : s.supplied raw = .ok ws)
    {f : Field} {hops : Hops} (hf : f.replacements = ws ++ hops.constants)
    {r : Record} (hr : r.get f.raw.name = []) :
    (∀ literal w, s.replacement? raw = some literal → Scalar.parse literal raw.dataType = .ok w →
      f.values r = [w]) ∧
    (s.replacement? raw = none → f.values r = (hops.getLast?.map (·.2)).toList) := by
  rw [Field.values_of_get_eq_nil hr, hf]
  rcases supplied_eq_ok.mp hws with ⟨hnone, rfl⟩ | ⟨literal, w, hsome, hw, rfl⟩
  · refine ⟨fun literal w hliteral => ?_, fun _ => by simp [Hops.constants]⟩
    rw [hnone] at hliteral
    cases hliteral
  · refine ⟨fun literal' w' hliteral hw' => ?_, fun hnone => ?_⟩
    · rw [hsome, Option.some.injEq] at hliteral
      rw [← hliteral, hw, Except.ok.injEq] at hw'
      rw [hw']
      rfl
    · rw [hsome] at hnone
      cases hnone

/-- Resolving a name is following its way. It succeeds exactly when the way reaches the dictionary without meeting a
name twice and the literal of the mining schema can be read; the field then has the types of the name itself, and its
values are those of the raw field, else the value of the mining schema, else the constant nearest to the raw field. A
way in a circle is found out, and derived fields never hide a name of the dictionary. -/
theorem resolve_follows (s : Scope) (name : String) :
    ((∃ f, s.resolve name = .ok f) ↔
      ∃ hops last raw, s.Leads name hops last ∧ hops.names.Nodup ∧
        s.dictionary.field? last = some raw ∧
        ∀ literal, s.replacement? raw = some literal → ∃ w, Scalar.parse literal raw.dataType = .ok w) ∧
    (∀ f, s.resolve name = .ok f → ∀ hops last raw, s.Leads name hops last → hops.names.Nodup →
      s.dictionary.field? last = some raw →
      f.name = name ∧ f.raw = raw ∧
        (f.optype, f.dataType) =
          hops.head?.elim (raw.optype, raw.dataType) (fun hop => (hop.1.optype, hop.1.dataType)) ∧
        ∀ r : Record,
          (r.get raw.name ≠ [] → f.values r = r.get raw.name) ∧
          (r.get raw.name = [] →
            (∀ literal w, s.replacement? raw = some literal →
              Scalar.parse literal raw.dataType = .ok w → f.values r = [w]) ∧
            (s.replacement? raw = none → f.values r = (hops.getLast?.map (·.2)).toList))) ∧
    (∀ hops last, s.Leads name hops last → hops.names.Nodup → last ∈ hops.names →
      s.resolve name = .error (.malformed (.cycle last))) ∧
    ∀ raw, s.dictionary.field? name = some raw →
      ∀ derived, Scope.resolve { s with derived } name = s.resolve name := by
  refine ⟨exists_resolve_iff, ?_, ?_, ?_⟩
  · intro f hf hops last raw hleads hnodup hraw
    rw [resolve_of_leads hleads hnodup hraw, Outcome.bind_eq_ok] at hf
    obtain ⟨ws, hws, hf⟩ := hf
    cases hf
    exact ⟨rfl, rfl, rfl, fun r => ⟨fun hr => Field.values_of_present _ r hr,
      fun hr => values_of_supplied hws rfl hr⟩⟩
  · intro hops last hleads hnodup hlast
    unfold resolve
    rw [trace_eq_cycle hleads hnodup hlast, Outcome.error_bind]
  -- nothing is passed through
  · intro raw hraw derived
    rw [resolve_of_leads (.here name) List.nodup_nil hraw,
      resolve_of_leads (s := { s with derived }) (.here name) List.nodup_nil hraw]
    rfl

def innerAge : DerivedField :=
  .replacingMissing "inner" "age" .continuous .double "40"

def outerAge : DerivedField :=
  .replacingMissing "outer" "inner" .categorical .string "50"

def thereField : DerivedField :=
  .replacingMissing "there" "back" .continuous .string "1"

def backField : DerivedField :=
  .replacingMissing "back" "there" .continuous .string "2"

/-- Two derived fields behind an age, and two that lead to each other. -/
def ageScope (schema : Option MiningSchema) : Scope where
  dictionary := ⟨[.continuous "age" .double]⟩
  derived := [innerAge, outerAge, thereField, backField]
  schema := schema

theorem outerAge_leads (schema : Option MiningSchema) :
    (ageScope schema).Leads "outer" [(outerAge, .string "50"), (innerAge, .double 40.0)] "age" := by
  have hinner : (ageScope schema).Lists "inner" innerAge := ⟨rfl, [], _, rfl, by decide⟩
  have houter : (ageScope schema).Lists "outer" outerAge := ⟨rfl, [innerAge], _, rfl, by decide⟩
  exact .hop rfl houter ⟨"50", rfl, rfl⟩ (.hop rfl hinner ⟨"40", rfl, rfl⟩ (.here "age"))

theorem thereField_leads (schema : Option MiningSchema) :
    (ageScope schema).Leads "there" [(thereField, .string "1"), (backField, .string "2")] "there" := by
  have hthere : (ageScope schema).Lists "there" thereField :=
    ⟨rfl, [innerAge, outerAge], _, rfl, by decide⟩
  have hback : (ageScope schema).Lists "back" backField :=
    ⟨rfl, [innerAge, outerAge, thereField], _, rfl, by decide⟩
  exact .hop rfl hthere ⟨"1", rfl, rfl⟩ (.hop rfl hback ⟨"2", rfl, rfl⟩ (.here "there"))

/-- Without an age, the constant next to it counts, unless the mining schema supplies a value. -/
theorem resolve_follows_age :
    (∃ f, (ageScope none).resolve "outer" = .ok f ∧ f.optype = .categorical ∧
      f.values (fun _ => []) = [.double 40.0]) ∧
    (∃ f, (ageScope (some ⟨[(MiningField.active "age").withReplacement "30"]⟩)).resolve "outer" = .ok f ∧
      f.values (fun _ => []) = [.double 30.0]) ∧
    (ageScope none).resolve "there" = .error (.malformed (.cycle "there")) := by
  refine ⟨?_, ?_, ?_⟩
  · obtain ⟨hiff, hfield, -⟩ := resolve_follows (ageScope none) "outer"
    have hleads := outerAge_leads none
    obtain ⟨f, hf⟩ := hiff.mpr ⟨_, _, _, hleads, by decide, rfl, fun literal h => by cases h⟩
    obtain ⟨-, -, htypes, hvalues⟩ := hfield f hf _ _ _ hleads (by decide) rfl
    exact ⟨f, hf, congrArg Prod.fst htypes, ((hvalues _).2 rfl).2 rfl⟩
  · obtain ⟨hiff, hfield, -⟩ :=
      resolve_follows (ageScope (some ⟨[(MiningField.active "age").withReplacement "30"]⟩)) "outer"
    have hleads := outerAge_leads (some ⟨[(MiningField.active "age").withReplacement "30"]⟩)
    have hparse : Scalar.parse "30" .double = .ok (.double 30.0) := rfl
    obtain ⟨f, hf⟩ := hiff.mpr ⟨_, _, _, hleads, by decide, rfl, fun literal h => by
      cases h
      exact ⟨_, hparse⟩⟩
    obtain ⟨-, -, -, hvalues⟩ := hfield f hf _ _ _ hleads (by decide) rfl
    exact ⟨f, hf, ((hvalues _).2 rfl).1 "30" _ rfl hparse⟩
  · exact (resolve_follows (ageScope none) "there").2.2.1 _ _ (thereField_leads none) (by decide)
      (by decide)

end Scope

end Scoring
