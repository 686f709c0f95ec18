import Mathlib.Logic.Relation
import Scoring.Proofs.Scorer.Refusal

/-!
# Locality — a score depends on the fields that are read, and on nothing else

A compiled model reads certain raw fields: those behind the spans of its vectorizer, or behind the fields of its
intake. Records that show the same values of these fields are the same to it. In particular a JSON document may be
changed in ways that show nothing (`Json.Edit`), and any number of such changes leaves answers and failures as they
are (`run_reads_sources`).
-/

namespace Scoring

def Record.AgreesOn (read : List String) (r r' : Record) : Prop :=
  ∀ name ∈ read, r'.get name = r.get name

/-! ## 1. What is read -/

namespace Scorer

/-- The raw fields that a scorer reads. -/
def sources (s : Scorer) : List String :=
  match s.pipeline with
  | .vector v => v.spans.filterMap fun span => span.field?.map (·.raw.name)
  | .fields i => i.values.map (·.raw.name)
  | .precomputed _ => []

end Scorer

variable {r r' : Record}

namespace Field

variable {f : Field}

theorem values_congr (h : r'.get f.raw.name = r.get f.raw.name) : f.values r' = f.values r := by
  unfold values
  rw [h]

theorem observe_congr (h : r'.get f.raw.name = r.get f.raw.name) : f.observe r' = f.observe r := by
  unfold observe
  rw [values_congr h]

end Field

namespace Span

theorem number_congr {f : Field} (h : r'.get f.raw.name = r.get f.raw.name) : number f r' = number f r := by
  unfold number
  rw [Field.values_congr h]

theorem observed_congr {f : Field} (h : r'.get f.raw.name = r.get f.raw.name) :
    observed f r' = observed f r := by
  unfold observed
  rw [Field.values_congr h]

theorem entries_congr {span : Span} (h : ∀ f ∈ span.field?, r'.get f.raw.name = r.get f.raw.name) :
    span.entries r' = span.entries r := by
  obtain ⟨offset, encoding⟩ := span
  unfold entries
  cases encoding with
  | continuous f => simp only [number_congr (h f rfl)]
  | categorical f => simp only [observed_congr (h f rfl)]
  | intercept p => rfl

end Span

theorem Vectorizer.vectorize_congr {v : Vectorizer}
    (h : ∀ span ∈ v.spans, ∀ f ∈ span.field?, r'.get f.raw.name = r.get f.raw.name) :
    v.vectorize r' = v.vectorize r := by
  unfold vectorize
  rw [Outcome.mapM_congr fun span hspan => Span.entries_congr (h span hspan)]

theorem Intake.observe_congr {i : Intake} (h : ∀ f ∈ i.values, r'.get f.raw.name = r.get f.raw.name) :
    i.observe r' = i.observe r := by
  unfold observe
  rw [Outcome.mapM_congr]
  rintro ⟨name, f⟩ hf
  simp only [Field.observe_congr (h f (List.mem_map_of_mem hf))]

namespace Scorer

variable {s : Scorer}

/-- Records that agree on what a scorer reads are prepared alike. -/
theorem prepare_congr (h : r.AgreesOn s.sources r') : s.prepare r' = s.prepare r := by
  obtain ⟨name, pipeline, classifier⟩ := s
  unfold Record.AgreesOn sources at h
  unfold prepare
  cases pipeline with
  | vector v =>
    simp only
    rw [Vectorizer.vectorize_congr]
    intro span hspan f hf
    refine h f.raw.name (List.mem_filterMap.mpr ⟨span, hspan, ?_⟩)
    rw [Option.mem_def.mp hf, Option.map_some]
  | fields i =>
    simp only
    rw [Intake.observe_congr fun f hf => h f.raw.name (List.mem_map_of_mem hf)]
  | precomputed size => rfl

theorem label_congr (h : r.AgreesOn s.sources r') : s.label r' = s.label r := by
  unfold label
  rw [prepare_congr h]

theorem explanation_congr (h : r.AgreesOn s.sources r') : s.explanation r' = s.explanation r := by
  unfold explanation
  rw [prepare_congr h]

/-- A run sees its document only as a record, unless the document is a payload. -/
theorem run_congr {document document' : Json} (hs : s.isPrecomputed = false)
    (h : (Record.ofJson document).AgreesOn s.sources (.ofJson document')) (params : Params) :
    s.run document' params = s.run document params := by
  have hinput : ∀ j, s.input j = s.prepare (.ofJson j) := by
    intro j
    obtain ⟨name, pipeline, classifier⟩ := s
    cases pipeline with
    | vector v => rfl
    | fields i => rfl
    | precomputed size => cases hs
  rw [run_eq, run_eq, hinput, hinput, prepare_congr h]

end Scorer

/-! ## 2. Changes that show nothing -/

/-- One change of a document that does not show in the given fields: another member comes in, a null goes whose name is
not used again, or a value that is no array is put into one. -/
inductive Json.Edit (read : List String) : Json → Json → Prop
  | add {before after : List (String × Json)} {name : String} {value : Json} (unread : name ∉ read) :
      Edit read (.object (before ++ after)) (.object (before ++ (name, value) :: after))
  | dropNull {before after : List (String × Json)} {name : String} (once : name ∉ after.map Prod.fst) :
      Edit read (.object (before ++ (name, .null) :: after)) (.object (before ++ after))
  | wrap {before after : List (String × Json)} {name : String} {value : Json}
      (single : ∀ items, value ≠ .array items) :
      Edit read (.object (before ++ (name, value) :: after))
        (.object (before ++ (name, .array [value]) :: after))

namespace Record

def shown : Option Json → List Scalar
  | none | some .null => []
  | some (.array items) => items.filterMap Scalar.ofJson?
  | some j => (Scalar.ofJson? j).toList

theorem get_ofJson (document : Json) (name : String) :
    (ofJson document).get name = shown (document.member? name) := rfl

theorem shown_wrap {value : Json} (h : ∀ items, value ≠ .array items) :
    shown (some (.array [value])) = shown (some value) := by
  cases value with
  | array items => exact absurd rfl (h items)
  | null | object _ | bool _ | string _ | float _ => rfl
  | int i =>
    show [Json.int i].filterMap Scalar.ofJson? = (Scalar.ofJson? (.int i)).toList
    cases h : Scalar.ofJson? (.int i) <;> simp [h]

/-- An edit changes no value that is read. -/
theorem agreesOn_of_edit {read : List String} {document document' : Json}
    (h : Json.Edit read document document') : (ofJson document).AgreesOn read (ofJson document') := by
  intro n hn
  rw [get_ofJson, get_ofJson]
  cases h with
  | @add before after name value unread =>
    have hne : name ≠ n := fun heq => unread (heq ▸ hn)
    unfold Json.member?
    simp only [Table.lookup_append, Table.lookup, hne, if_false]
  | @dropNull before after name once =>
    unfold Json.member?
    simp only [Table.lookup_append, Table.lookup]
    cases Table.lookup n before with
    | some j => rfl
    | none =>
      by_cases hname : name = n
      · subst hname
        rw [Table.lookup_eq_none_iff.mpr once, if_pos rfl]
        rfl
      · rw [if_neg hname]
  | @wrap before after name value single =>
    unfold Json.member?
    simp only [Table.lookup_append, Table.lookup]
    cases Table.lookup n before with
    | some j => rfl
    | none =>
      by_cases hname : name = n
      · rw [if_pos hname, if_pos hname]
        exact shown_wrap single
      · rw [if_neg hname, if_neg hname]

/-- Nor does any number of edits, forth and back. -/
theorem agreesOn_of_edits {read : List String} {document document' : Json}
    (h : Relation.EqvGen (Json.Edit read) document document') :
    (ofJson document).AgreesOn read (ofJson document') := by
  induction h with
  | rel _ _ hedit => exact agreesOn_of_edit hedit
  | refl _ => exact fun _ _ => rfl
  | symm _ _ _ ih => exact fun n hn => (ih n hn).symm
  | trans _ _ _ _ _ ih₁ ih₂ => exact fun n hn => (ih₂ n hn).trans (ih₁ n hn)

end Record

/-! ## 3. Scores -/

namespace Scorer

/-- Unless the caller supplies the vectors, a score depends only on the raw fields that the model reads. Sources of any
kind that show the same values of these get the same answer, which is the same label, the same explanation or the same
failure; and so do JSON documents that differ in members of other names, in nulls in place of nothing, and in arrays
around single values. -/
theorem run_reads_sources (s : Scorer) (hs : s.isPrecomputed = false) :
    (∀ r r' : Record, r.AgreesOn s.sources r' →
      s.label r' = s.label r ∧ s.explanation r' = s.explanation r) ∧
    ∀ document document', Relation.EqvGen (Json.Edit s.sources) document document' →
      s.label (.ofJson document') = s.label (.ofJson document) ∧
      s.explanation (.ofJson document') = s.explanation (.ofJson document) ∧
      ∀ params, s.run document' params = s.run document params := by
  refine ⟨fun r r' h => ⟨label_congr h, explanation_congr h⟩, fun document document' h => ?_⟩
  have hagrees := Record.agreesOn_of_edits h
  exact ⟨label_congr hagrees, explanation_congr hagrees, run_congr hs hagrees⟩

/-- A document that shows the age as its only value does, with a remark that nobody reads. -/
def remarkedAge : Json :=
  .object [("remark", .string "late"), ("age", .array [.int 70]), ("y", .null)]

theorem remarkedAge_edits (read : List String) (h : "remark" ∉ read) :
    Relation.EqvGen (Json.Edit read) (.object [("age", .int 70)]) remarkedAge := by
  have hwrap : Json.Edit read (.object ([] ++ ("age", .int 70) :: []))
      (.object ([] ++ ("age", .array [.int 70]) :: [])) := .wrap fun _ h => by cases h
  have hnull : Json.Edit read (.object ([("age", .array [.int 70])] ++ ("y", .null) :: []))
      (.object ([("age", .array [.int 70])] ++ [])) := .dropNull (by decide)
  have hremark : Json.Edit read (.object ([] ++ [("age", .array [.int 70]), ("y", .null)]))
      (.object ([] ++ ("remark", .string "late") :: [("age", .array [.int 70]), ("y", .null)])) := .add h
  -- the value is wrapped, the null comes back and the remark comes in
  have hwrapped := Relation.EqvGen.rel _ _ hwrap
  have hnulled := hwrapped.trans _ _ _ (.symm _ _ (.rel _ _ hnull))
  exact hnulled.trans _ _ _ (.rel _ _ hremark)

theorem run_reads_sources_age : ∃ s, Compile.modelAt Compile.ageDocument 0 = .ok s ∧
    s.isPrecomputed = false ∧ s.sources = ["age"] ∧
    (∀ params, s.run remarkedAge params = s.run (.object [("age", .int 70)]) params) ∧
    s.label (.ofJson (.object [("age", .int 70)])) = .ok "yes" ∧ s.label (.ofJson remarkedAge) = .ok "yes" ∧
    s.explanation (.ofTable (Table.empty.add "age" (.integer 70))) =
      s.explanation (.ofJson remarkedAge) := by
  have hreads : (Compile.modelAt Compile.ageDocument 0).toOption.map
      (fun s => (s.isPrecomputed, s.sources, (s.label (.ofJson (.object [("age", .int 70)]))).toOption)) =
        some (false, ["age"], some "yes") := by decide +kernel
  obtain ⟨s, hs, hreads⟩ := Outcome.exists_of_toOption_map hreads
  obtain ⟨hprecomputed, hreads⟩ := Prod.mk.inj hreads
  obtain ⟨hsources, hanswer⟩ := Prod.mk.inj hreads
  rw [Outcome.toOption_eq_some_iff] at hanswer
  obtain ⟨hrecords, hdocuments⟩ := run_reads_sources s hprecomputed
  have hedits := remarkedAge_edits s.sources (by rw [hsources]; decide)
  obtain ⟨hlabel, -, hrun⟩ := hdocuments _ _ hedits
  refine ⟨s, hs, hprecomputed, hsources, hrun, hanswer, hlabel.trans hanswer, (hrecords _ _ ?_).2⟩
  intro name hname
  rw [hsources, List.mem_singleton] at hname
  subst hname
  rfl

end Scorer

end Scoring
