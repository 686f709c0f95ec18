import Scoring.Proofs.Condition.Operand
import Scoring.Proofs.Json.Finite
import Scoring.Proofs.Layout.Encoding
import Scoring.Proofs.Linear.Precomputed
import Scoring.Proofs.Scorer.Fit

/-!
# Finite — the numbers in vectors of documents

The numbers of a document are finite, but a continuous field may show a text instead, and a text is taken for whatever
double it is read as: `nan`, infinity and numbers that are too large included. There is no other way for something that
is not a finite number to get into a vector (`Compile.vectorize_finite`).
-/

namespace Scoring

open Spec (Document)
open Decimal (WritesNoFinite)

/-! ## 1. Values -/

def Scalar.Finite (v : Scalar) : Prop :=
  ∀ x, v.number? = some x → x.isFinite = true

/-- A value of a document is finite, or else it is a text. -/
theorem Scalar.finite_of_ofJson? {j : Json} (hj : j.Finite) {v : Scalar} (h : ofJson? j = some v) :
    v.Finite ∨ ∃ text, v = .string text := by
  cases hj with
  | @int i hi =>
    left
    intro x hx
    -- within 64 bits the value is the integer, beyond them its double
    cases hk : Decimal.int64OfInt? i with
    | some k =>
      simp only [ofJson?, hk, Option.some.injEq] at h
      subst h
      cases hx
      rwa [Decimal.toInt_of_int64OfInt? hk]
    | none =>
      simp only [ofJson?, hk, Option.some.injEq] at h
      subst h
      cases hx
      exact hi
  | float hx =>
    cases h
    left
    intro x' hx'
    cases hx'
    exact hx
  | bool b =>
    cases h
    exact .inr ⟨_, rfl⟩
  | string s =>
    cases h
    exact .inr ⟨_, rfl⟩
  | null | array | object => cases h

/-- So are all values that a document has for a field. -/
theorem Record.finite_of_mem {document : Json} (hd : document.Finite) {field : String} {v : Scalar}
    (h : v ∈ (ofJson document).get field) : v.Finite ∨ ∃ text, v = .string text := by
  have hmember : ∀ j, document.member? field = some j → j.Finite := by
    intro j hj
    cases hd with
    | object hall => exact hall _ (Table.mem_of_lookup hj)
    | null | bool | int | float | string | array => cases hj
  unfold get ofJson at h
  split at h
  -- nothing is shown by a field that is not there, and nothing by null
  · cases h
  · cases h
  · rename_i items hitems
    obtain ⟨j, hj, hv⟩ := List.mem_filterMap.mp h
    cases hmember _ hitems with
    | array hall => exact Scalar.finite_of_ofJson? (hall j hj) hv
  · rename_i j hj
    exact Scalar.finite_of_ofJson? (hmember _ hj) (Option.mem_toList.mp h)

/-- The number that a numeric field holds is the one that its value is taken for. -/
theorem Scalar.bind_coerce? {type : Spec.DataType} (h : type.isNumeric = true) (v : Scalar) :
    (v.coerce? type).bind toFloat? = v.number? := by
  rw [coerce?_of_numeric h]
  cases v.number? <;> rfl

/-- The number of a field is not finite when the document shows a text for it that writes no finite number. -/
theorem Field.isFinite_eq_false_iff {f : Field} {document : Json} {v : Scalar} {x : Float}
    (hd : document.Finite) (hreplacements : ∀ w ∈ f.replacements, w.Finite)
    (hvalue : f.values (.ofJson document) = [v]) (hnumber : v.number? = some x) :
    x.isFinite = false ↔ ∃ text, Record.get (.ofJson document) f.raw.name = [.string text] ∧
      WritesNoFinite (Text.trim text) := by
  by_cases hmissing : Record.get (.ofJson document) f.raw.name = []
  · -- the value is a replacement
    have hv : v.Finite := by
      cases hw : f.replacements with
      | nil =>
        rw [f.values_of_absent _ hmissing hw] at hvalue
        cases hvalue
      | cons w ws =>
        rw [f.values_of_missing _ hmissing hw, List.singleton_inj] at hvalue
        exact hvalue ▸ hreplacements w (by simp [hw])
    rw [hmissing]
    exact iff_of_false (by simp [hv x hnumber]) (by rintro ⟨_, h, -⟩; cases h)
  · have hget := (f.values_of_present _ hmissing).symm.trans hvalue
    rw [hget]
    rcases Record.finite_of_mem hd (hget ▸ List.mem_singleton_self v) with hv | ⟨text, rfl⟩
    · refine iff_of_false (by simp [hv x hnumber]) ?_
      -- a text whose number is finite does not write one that is not
      rintro ⟨text, htext, hwrites⟩
      rw [List.singleton_inj] at htext
      subst htext
      obtain ⟨x', hx', hinfinite⟩ := (Decimal.exists_float?_iff _).mpr hwrites
      rw [hv x' hx'] at hinfinite
      cases hinfinite
    · have hread := Decimal.exists_float?_iff (Text.trim text)
      rw [show Decimal.float? (Text.trim text) = some x from hnumber] at hread
      constructor
      · exact fun hx => ⟨text, rfl, hread.mp ⟨x, rfl, hx⟩⟩
      · rintro ⟨_, htext, hwrites⟩
        cases htext
        obtain ⟨_, hx', hx⟩ := hread.mpr hwrites
        cases hx'
        exact hx

/-! ## 2. Spans -/

namespace Span

def replacements (s : Span) : List Scalar :=
  match s.encoding with
  | .continuous f => f.replacements
  | .categorical _ | .intercept _ => []

/-- The only value that a record has for the number of a span is a text that writes no finite number. -/
def ShowsNoFinite (s : Span) (r : Record) : Prop :=
  ∃ f text, s.encoding = .continuous f ∧ r.get f.raw.name = [.string text] ∧ WritesNoFinite (Text.trim text)

/-- Where replacements are finite, what a span holds is not finite when its field shows a text that writes no finite
number. -/
theorem Holds.isFinite_eq_false_iff {s : Span} {document : Json} {i : Nat} {x : Float}
    (h : s.Holds (.ofJson document) i x) (hs : s.WellFormed) (hd : document.Finite)
    (hreplacements : ∀ w ∈ s.replacements, w.Finite) : x.isFinite = false ↔ s.ShowsNoFinite (.ofJson document) := by
  cases h with
  | number hvalue hnumber =>
    rw [Scalar.bind_coerce? hs] at hnumber
    rw [Field.isFinite_eq_false_iff hd hreplacements hvalue hnumber]
    constructor
    · rintro ⟨text, htext, hwrites⟩
      exact ⟨_, text, rfl, htext, hwrites⟩
    · rintro ⟨_, text, hf, htext, hwrites⟩
      cases hf
      exact ⟨text, htext, hwrites⟩
  | category | intercept =>
    refine iff_of_false (by decide +kernel) ?_
    rintro ⟨f, text, hencoding, -⟩
    cases hencoding

/-- A span whose field shows such a text is that of a number, so it holds one if it can read the record. -/
theorem ShowsNoFinite.exists_holds {s : Span} {r : Record} (h : s.ShowsNoFinite r) (hread : s.Readable r) :
    ∃ x, s.Holds r s.offset x := by
  obtain ⟨offset, encoding⟩ := s
  obtain ⟨f, -, rfl, -⟩ := h
  obtain ⟨v, x, hvalue, hnumber⟩ := hread
  exact ⟨x, .number hvalue hnumber⟩

/-- What it holds stands at its offset. -/
theorem Holds.offset_of_showsNoFinite {s : Span} {r : Record} {i : Nat} {x : Float} (h : s.Holds r i x)
    (hshows : s.ShowsNoFinite r) : s.offset = i := by
  obtain ⟨f, -, hencoding, -⟩ := hshows
  cases h with
  | number => rfl
  | category | intercept => cases hencoding

end Span

/-! ## 3. Vectors -/

namespace Vectorizer

variable {v : Vectorizer} {document : Json} {w : SparseVector}

/-- An entry is not finite exactly when it belongs to a field that shows a text that writes no finite number. -/
theorem isFinite_eq_false_iff (hspans : ∀ span ∈ v.spans, span.WellFormed) (hd : document.Finite)
    (hreplacements : ∀ span ∈ v.spans, ∀ w ∈ span.replacements, w.Finite)
    (hw : v.vectorize (.ofJson document) = .ok w) {i : Nat} {x : Float} (hx : (i, x) ∈ w.entries) :
    x.isFinite = false ↔ ∃ span ∈ v.spans, span.offset = i ∧ span.ShowsNoFinite (.ofJson document) := by
  have hmem := (mem_entries_vectorize_iff hw).2
  have hread := exists_vectorize_iff.mp ⟨w, hw⟩
  have hholds : ∀ span ∈ v.spans, ∀ i x, span.Holds (.ofJson document) i x →
      (x.isFinite = false ↔ span.ShowsNoFinite (.ofJson document)) :=
    fun span hspan i x h => h.isFinite_eq_false_iff (hspans span hspan) hd (hreplacements span hspan)
  constructor
  · intro hinfinite
    obtain ⟨span, hspan, h⟩ := (hmem i x).mp hx
    have hshows := (hholds span hspan i x h).mp hinfinite
    exact ⟨span, hspan, h.offset_of_showsNoFinite hshows, hshows⟩
  · rintro ⟨span, hspan, rfl, hshows⟩
    obtain ⟨y, h⟩ := hshows.exists_holds (hread span hspan)
    have hy := (hmem _ _).mpr ⟨span, hspan, h⟩
    -- an index has one entry
    rw [← SparseVector.get_of_mem hx, SparseVector.get_of_mem hy]
    exact (hholds span hspan _ y h).mpr hshows

/-- So a vector is finite exactly when no field shows such a text. -/
theorem forall_isFinite_iff (hspans : ∀ span ∈ v.spans, span.WellFormed) (hd : document.Finite)
    (hreplacements : ∀ span ∈ v.spans, ∀ w ∈ span.replacements, w.Finite)
    (hw : v.vectorize (.ofJson document) = .ok w) :
    (∀ x ∈ w.values, x.isFinite = true) ↔ ∀ span ∈ v.spans, ¬ span.ShowsNoFinite (.ofJson document) := by
  have hentry := fun i x => isFinite_eq_false_iff hspans hd hreplacements hw (i := i) (x := x)
  constructor
  · intro hall span hspan hshows
    obtain ⟨x, h⟩ := hshows.exists_holds (exists_vectorize_iff.mp ⟨w, hw⟩ span hspan)
    have hx := ((mem_entries_vectorize_iff hw).2 _ _).mpr ⟨span, hspan, h⟩
    have hinfinite := (hentry _ _ hx).mpr ⟨span, hspan, rfl, hshows⟩
    rw [hall x (List.mem_map_of_mem hx)] at hinfinite
    cases hinfinite
  · intro hnone x hx
    obtain ⟨⟨i, y⟩, hy, rfl⟩ := List.mem_map.mp hx
    by_contra hinfinite
    obtain ⟨span, hspan, -, hshows⟩ := (hentry i y hy).mp (by simpa using hinfinite)
    exact hnone span hspan hshows

end Vectorizer

/-! ## 4. Compiled models -/

namespace Compile

variable {d : Document} {m : Spec.Model} {s : Scorer} {v : Vectorizer} {document : Json}

/-- A document with finite numbers, as every text of a document has (`Json.finite_of_ofString?`), is refused with a
mismatch, or else its vector has an entry that is not finite exactly where the document shows a text for a continuous
field that writes no finite number, provided that all replacements for missing numbers are finite. -/
theorem vectorize_finite (h : model d m = .ok s) (hv : s.pipeline = .vector v)
    (hreplacements : ∀ span ∈ v.spans, ∀ w ∈ span.replacements, w.Finite) (hd : document.Finite) :
    (∀ e, v.vectorize (.ofJson document) = .error e → ∃ cause, e = .mismatch cause) ∧
      ∀ w, v.vectorize (.ofJson document) = .ok w →
        (∀ i x, (i, x) ∈ w.entries →
          (x.isFinite = false ↔ ∃ span ∈ v.spans, span.offset = i ∧ span.ShowsNoFinite (.ofJson document))) ∧
          ((∀ x ∈ w.values, x.isFinite = true) ↔
            ∀ span ∈ v.spans, ¬ span.ShowsNoFinite (.ofJson document)) := by
  have hspans := (fits_of_model h).wellFormed hv
  refine ⟨fun e he => ?_, fun w hw => ⟨fun i x hx => ?_, ?_⟩⟩
  · obtain ⟨_, span, _, -, -, herror⟩ := Vectorizer.vectorize_eq_error.mp he
    obtain ⟨cause, rfl, -⟩ := Span.refuses_of_entries herror
    exact ⟨cause, rfl⟩
  · exact Vectorizer.isFinite_eq_false_iff hspans hd hreplacements hw hx
  · exact Vectorizer.forall_isFinite_iff hspans hd hreplacements hw

/-! Somebody aged 40 whose hours are not a number, in a document for the support vector machine on both. -/

def hoursText : String :=
  "\x7b\"age\": 40, \"hours\": \"NaN\"\x7d"

/-- A support vector machine that replaces no missing number takes a record to a vector that is not finite, scores it
with something that is not finite either, and labels it. -/
def labelsNoFinite (s : Scorer) (r : Record) (label : String) : Bool :=
  match s.pipeline, s.classifier with
  | .vector v, .margin l =>
    (v.spans.flatMap (·.replacements)).isEmpty && !(v.stored r).values.all Float.isFinite &&
      decide ((l.score (v.stored r)).toOption.map Float.isFinite = some false) &&
      decide ((l.margin (v.stored r)).toOption = some label)
  | _, _ => false

/-- The text is in the vector as the double that it is read as, the score is not finite either, and the class is the
negative one. -/
theorem exists_hoursText :
    ∃ document s v l w y, Json.ofString? hoursText = some document ∧
      model hoursDocument (.regression hoursRegression) = .ok s ∧ s.pipeline = .vector v ∧
      s.classifier = .margin l ∧ (∀ span ∈ v.spans, ∀ w ∈ span.replacements, w.Finite) ∧
      v.vectorize (.ofJson document) = .ok w ∧ ¬ (∀ x ∈ w.values, x.isFinite = true) ∧
      l.score w = .ok y ∧ y.isFinite = false ∧ l.margin w = .ok "0" := by
  have hparts : (Json.ofString? hoursText).bind (fun document =>
      (model hoursDocument (.regression hoursRegression)).toOption.map fun s =>
        (reads s (.ofJson document), labelsNoFinite s (.ofJson document) "0")) = some (true, true) := by
    decide +kernel
  obtain ⟨document, hdocument, hparts⟩ := Option.bind_eq_some_iff.mp hparts
  obtain ⟨s, hs, hparts⟩ := Outcome.exists_of_toOption_map hparts
  obtain ⟨hread, hparts⟩ := Prod.mk.inj hparts
  obtain ⟨name, pipeline, classifier⟩ := s
  unfold labelsNoFinite at hparts
  split at hparts
  · rename_i v l hpipeline hclassifier
    simp only [Bool.and_eq_true, List.isEmpty_iff, List.flatMap_eq_nil_iff, Bool.not_eq_true', decide_eq_true_eq,
      Outcome.toOption_eq_some_iff] at hparts
    obtain ⟨⟨⟨hreplacements, hinfinite⟩, hscore⟩, hlabel⟩ := hparts
    obtain ⟨y, hy, hscore⟩ := Outcome.exists_of_toOption_map hscore
    cases hpipeline
    cases hclassifier
    have hspans := (fits_of_model hs).wellFormed rfl
    obtain ⟨w, hw⟩ := Vectorizer.exists_of_entries hspans hread
    obtain ⟨rfl, -⟩ := Vectorizer.eq_stored_of_vectorize hspans hw
    refine ⟨document, _, v, l, _, y, hdocument, hs, rfl, rfl, fun span hspan w hmem => ?_, hw, fun hall => ?_, hy,
      hscore, hlabel⟩
    · rw [hreplacements span hspan] at hmem
      cases hmem
    · rw [List.all_eq_true.mpr hall] at hinfinite
      cases hinfinite
  · cases hparts

/-- The document shows the text that stands behind the number, and it gets its class all the same. -/
theorem vectorize_finite_hours :
    ∃ document s v l w y, Json.ofString? hoursText = some document ∧
      model hoursDocument (.regression hoursRegression) = .ok s ∧ s.pipeline = .vector v ∧
      s.classifier = .margin l ∧ (∀ span ∈ v.spans, ∀ w ∈ span.replacements, w.Finite) ∧ document.Finite ∧
      v.vectorize (.ofJson document) = .ok w ∧ (∃ span ∈ v.spans, span.ShowsNoFinite (.ofJson document)) ∧
      l.score w = .ok y ∧ y.isFinite = false ∧ l.margin w = .ok "0" := by
  obtain ⟨document, s, v, l, w, y, htext, hs, hv, hl, hreplacements, hw, hinfinite, hscore⟩ := exists_hoursText
  have hd := Json.finite_of_ofString? htext
  refine ⟨document, s, v, l, w, y, htext, hs, hv, hl, hreplacements, hd, hw, ?_, hscore⟩
  by_contra hnone
  push Not at hnone
  exact hinfinite (((vectorize_finite hs hv hreplacements hd).2 w hw).2.mpr hnone)

/-- Not every vector of a document is finite. -/
theorem infinite_vectorized :
    ¬ ∀ (d : Document) (m : Spec.Model) (s : Scorer) (v : Vectorizer), model d m = .ok s → s.pipeline = .vector v →
      (∀ span ∈ v.spans, ∀ w ∈ span.replacements, w.Finite) → ∀ document : Json, document.Finite →
        (∃ cause, v.vectorize (.ofJson document) = .error (.mismatch cause)) ∨
          ∃ w, v.vectorize (.ofJson document) = .ok w ∧ ∀ x ∈ w.values, x.isFinite = true := by
  intro h
  obtain ⟨document, s, v, -, w, -, htext, hs, hv, -, hreplacements, hw, hinfinite, -⟩ := exists_hoursText
  rcases h _ _ s v hs hv hreplacements document (Json.finite_of_ofString? htext) with ⟨cause, hcause⟩ | ⟨w', hw', hall⟩
  · rw [hw] at hcause
    cases hcause
  · rw [hw, Except.ok.injEq] at hw'
    exact hinfinite (hw' ▸ hall)

end Compile

end Scoring
