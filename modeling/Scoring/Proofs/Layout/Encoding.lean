import Scoring.Proofs.Field.Observation
import Scoring.Proofs.Layout.Row
import Scoring.Proofs.Layout.Span
import Scoring.Proofs.SparseVector

/-!
# Encoding — what a feature vector says about a record

A span declares how a record is read: a continuous field has one number, a categorical field shows declared
categories only, and an intercept is always there. `Span.Readable` says when that works out, `Span.Refuses` lists
the ways in which it does not, and `Span.Holds` says which number stands at which index. A vectorizer whose spans
lie one behind the other gives exactly the entries that its spans hold, or the refusal of the first span that is
not readable (`vectorize_encodes`).
-/

namespace Scoring

/-! ## 1. Reading a span -/

def Span.Readable (s : Span) (r : Record) : Prop :=
  match s.encoding with
  | .continuous f => ∃ v x, f.values r = [v] ∧ (v.coerce? f.dataType).bind Scalar.toFloat? = some x
  | .categorical f => ∀ v ∈ f.values r, v.key f.raw.dataType ∈ f.categoryKeys
  | .intercept _ => True

/-- Which number stands at which index of a span when it reads a record. -/
inductive Span.Holds (r : Record) : Span → Nat → Float → Prop
  | number {offset : Nat} {f : Field} {v : Scalar} {x : Float} (value : f.values r = [v])
      (number : (v.coerce? f.dataType).bind Scalar.toFloat? = some x) :
      Span.Holds r ⟨offset, .continuous f⟩ offset x
  | category {offset : Nat} {f : Field} {v : Scalar} {k : Nat} (value : v ∈ f.values r)
      (position : position? f (v.key f.raw.dataType) = some k) :
      Span.Holds r ⟨offset, .categorical f⟩ (offset + k) 1.0
  | intercept {offset : Nat} {parameter : String} :
      Span.Holds r ⟨offset, .intercept parameter⟩ offset 1.0

inductive Span.Refuses (r : Record) : Span → Mismatch → Prop
  | missing {offset : Nat} {f : Field} (none : f.values r = []) :
      Span.Refuses r ⟨offset, .continuous f⟩ (.continuousMissing f.name)
  | repeated {offset : Nat} {f : Field} (several : 2 ≤ (f.values r).length) :
      Span.Refuses r ⟨offset, .continuous f⟩ (.continuousRepeated f.name (f.values r).length)
  | text {offset : Nat} {f : Field} {v : Scalar} (value : f.values r = [v])
      (text : (v.coerce? f.dataType).bind Scalar.toFloat? = none) :
      Span.Refuses r ⟨offset, .continuous f⟩ (.continuousText f.name v)
  | undeclared {offset : Nat} {f : Field} {v : Scalar} (value : v ∈ f.values r)
      (undeclared : v.key f.raw.dataType ∉ f.categoryKeys) :
      Span.Refuses r ⟨offset, .categorical f⟩ (.undeclaredCategory v f.name)

namespace Span

theorem refuses_of_number {offset : Nat} {f : Field} {r : Record} {e : Fault}
    (h : number f r = .error e) :
    ∃ cause, e = .mismatch cause ∧ Span.Refuses r ⟨offset, .continuous f⟩ cause := by
  unfold number at h
  split at h
  · rename_i hnone
    cases h
    exact ⟨_, rfl, .missing hnone⟩
  · rename_i v hv
    split at h
    · cases h
    · rename_i htext
      cases h
      exact ⟨_, rfl, .text hv htext⟩
  · rename_i hnil hone
    cases h
    exact ⟨_, rfl, .repeated (two_le_length hnil hone)⟩

theorem refuses_of_observed {offset : Nat} {f : Field} {r : Record} {e : Fault}
    (h : observed f r = .error e) :
    ∃ cause, e = .mismatch cause ∧ Span.Refuses r ⟨offset, .categorical f⟩ cause := by
  unfold observed at h
  rw [Outcome.bind_eq_error] at h
  rcases h with h | ⟨positions, -, h⟩
  · obtain ⟨v, hv, herror⟩ := Outcome.exists_of_mapM_eq_error h
    split at herror
    · cases herror
    · rename_i hposition
      cases herror
      exact ⟨_, rfl, .undeclared hv (position?_eq_none_iff.mp hposition)⟩
  · cases h

theorem refuses_of_entries {s : Span} {r : Record} {e : Fault} (h : s.entries r = .error e) :
    ∃ cause, e = .mismatch cause ∧ s.Refuses r cause := by
  obtain ⟨offset, encoding⟩ := s
  cases encoding with
  | intercept p => cases h
  | continuous f =>
    unfold entries at h
    rw [Outcome.bind_eq_error] at h
    rcases h with h | ⟨x, -, h⟩
    · exact refuses_of_number h
    · cases h
  | categorical f =>
    unfold entries at h
    rw [Outcome.bind_eq_error] at h
    rcases h with h | ⟨positions, -, h⟩
    · exact refuses_of_observed h
    · cases h

/-- A span that refuses a record is not readable. -/
theorem Refuses.not_readable {s : Span} {r : Record} {cause : Mismatch} (h : s.Refuses r cause) :
    ¬ s.Readable r := by
  cases h with
  | missing hnone =>
    rintro ⟨v, x, hv, -⟩
    rw [hnone] at hv
    cases hv
  | repeated hseveral =>
    rintro ⟨v, x, hv, -⟩
    rw [hv] at hseveral
    simp at hseveral
  | text hvalue htext =>
    rintro ⟨v, x, hv, hx⟩
    rw [hvalue] at hv
    cases hv
    rw [htext] at hx
    cases hx
  | undeclared hvalue hundeclared => exact fun hread => hundeclared (hread _ hvalue)

theorem number_eq_ok {f : Field} {r : Record} {x : Float} :
    number f r = .ok x ↔
      ∃ v, f.values r = [v] ∧ (v.coerce? f.dataType).bind Scalar.toFloat? = some x := by
  unfold number
  split
  · rename_i hnone
    simp [hnone]
  · rename_i v hv
    rw [hv]
    cases hx : (v.coerce? f.dataType).bind Scalar.toFloat? <;> simp [hx]
  · rename_i hnil hone
    simp only [reduceCtorEq, false_iff]
    rintro ⟨v, hv, -⟩
    exact hone v hv

theorem mem_entries_iff {s : Span} {r : Record} {es : List (Nat × Float)} (h : s.entries r = .ok es)
    {i : Nat} {x : Float} : (i, x) ∈ es ↔ s.Holds r i x := by
  obtain ⟨offset, encoding⟩ := s
  cases encoding with
  | intercept p =>
    cases h
    rw [List.mem_singleton, Prod.mk.injEq]
    constructor
    · rintro ⟨rfl, rfl⟩
      exact .intercept
    · intro hi
      cases hi
      exact ⟨rfl, rfl⟩
  | continuous f =>
    obtain ⟨y, hy, rfl⟩ := entries_continuous.mp h
    obtain ⟨v, hv, hnumber⟩ := number_eq_ok.mp hy
    rw [List.mem_singleton, Prod.mk.injEq]
    constructor
    · rintro ⟨rfl, rfl⟩
      exact .number hv hnumber
    · intro hi
      cases hi with
      | number hv' hnumber' =>
        rw [hv, List.cons.injEq] at hv'
        rw [← hv'.1, hnumber] at hnumber'
        exact ⟨rfl, (Option.some.inj hnumber').symm⟩
  | categorical f =>
    obtain ⟨ps, hps, rfl⟩ := entries_categorical.mp h
    have hmem := (observed_eq_ok hps).2
    rw [List.mem_map]
    constructor
    · rintro ⟨k, hk, heq⟩
      cases heq
      obtain ⟨v, hv, hposition⟩ := (hmem k).mp hk
      exact .category hv hposition
    · intro hi
      cases hi with
      | category hv hposition => exact ⟨_, (hmem _).mpr ⟨_, hv, hposition⟩, rfl⟩

/-- A span gives entries exactly when it is readable. -/
theorem exists_entries_iff {s : Span} {r : Record} : (∃ es, s.entries r = .ok es) ↔ s.Readable r := by
  constructor
  · rintro ⟨es, hes⟩
    obtain ⟨offset, encoding⟩ := s
    cases encoding with
    | intercept p => trivial
    | continuous f =>
      obtain ⟨x, hx, -⟩ := entries_continuous.mp hes
      obtain ⟨v, hv, hnumber⟩ := number_eq_ok.mp hx
      exact ⟨v, x, hv, hnumber⟩
    | categorical f =>
      obtain ⟨ps, hps, -⟩ := entries_categorical.mp hes
      obtain ⟨positions, hpositions, -⟩ := Outcome.bind_eq_ok.mp hps
      intro v hv
      -- the value has got a position, so its key is declared
      obtain ⟨k, hk⟩ := Outcome.exists_mapM_eq_ok_iff.mp ⟨positions, hpositions⟩ v hv
      by_contra hundeclared
      rw [position?_eq_none_iff.mpr hundeclared] at hk
      cases hk
  · intro hread
    cases hes : s.entries r with
    | ok es => exact ⟨es, rfl⟩
    | error e =>
      obtain ⟨cause, -, hrefuses⟩ := refuses_of_entries hes
      exact absurd hread hrefuses.not_readable

/-- A span writes within its own stretch, and no index twice. -/
theorem indices_of_entries {s : Span} {r : Record} {es : List (Nat × Float)}
    (h : s.entries r = .ok es) :
    (es.map Prod.fst).Nodup ∧ ∀ i ∈ es.map Prod.fst, s.offset ≤ i ∧ i < s.stop := by
  obtain ⟨offset, encoding⟩ := s
  cases encoding with
  | intercept p =>
    cases h
    simp [stop, size]
  | continuous f =>
    obtain ⟨x, -, rfl⟩ := entries_continuous.mp h
    simp [stop, size]
  | categorical f =>
    obtain ⟨ps, hps, rfl⟩ := entries_categorical.mp h
    obtain ⟨hd, hmem⟩ := observed_eq_ok hps
    have hindices : (ps.map fun k => (offset + k, (1.0 : Float))).map Prod.fst = ps.map (offset + ·) := by
      rw [List.map_map]
      rfl
    rw [hindices]
    refine ⟨hd.map fun a b hab => Nat.add_left_cancel hab, fun i hi => ?_⟩
    obtain ⟨k, hk, rfl⟩ := List.mem_map.mp hi
    -- a position is that of one of the categories
    obtain ⟨v, -, hposition⟩ := (hmem k).mp hk
    have := lt_of_position? hposition
    simp only [stop, size]
    omega

/-- Spans that follow each other write no index twice and none outside of them. -/
theorem Contiguous.indices_of_entries {start : Nat} {spans : List Span} {r : Record}
    {es : List (List (Nat × Float))} (hc : Contiguous start spans)
    (h : List.Forall₂ (fun s e => s.entries r = .ok e) spans es) :
    (es.flatten.map Prod.fst).Nodup ∧
      ∀ i ∈ es.flatten.map Prod.fst, start ≤ i ∧ i < start + (spans.map size).sum := by
  induction h generalizing start with
  | nil => simp
  | @cons s e rest es hse _ ih =>
    obtain ⟨hoff, hrest⟩ := hc
    obtain ⟨hd, hin⟩ := Span.indices_of_entries hse
    obtain ⟨hds, hins⟩ := ih hrest
    have hstop : s.stop = start + s.size := by
      unfold stop
      rw [hoff]
    rw [List.flatten_cons, List.map_append, List.map_cons, List.sum_cons]
    constructor
    -- the span ends where the spans behind it start
    · refine hd.append hds fun i hi hj => ?_
      have := hin i hi
      have := hins i hj
      omega
    · intro i hi
      rcases List.mem_append.mp hi with hi | hi
      · have := hin i hi
        omega
      · have := hins i hi
        omega

end Span

/-! ## 2. Vectors of records -/

namespace Vectorizer

variable {v : Vectorizer} {r : Record}

/-- The entries of all spans make up a vector, in whatever order a record shows its categories. -/
theorem exists_of_mapM_entries {es : List (List (Nat × Float))}
    (h : v.spans.mapM (Span.entries · r) = .ok es) :
    ∃ w, v.vectorize r = .ok w ∧ w.size = v.size ∧ w.entries.Perm es.flatten := by
  have hc := Span.gap?_eq_none_iff.mp v.aligned
  obtain ⟨hd, hin⟩ := hc.indices_of_entries (Outcome.mapM_eq_ok.mp h)
  have hr : ∀ i ∈ es.flatten.map Prod.fst, i < v.size := by
    intro i hi
    have := hin i hi
    rw [v.size_eq_sum]
    omega
  obtain ⟨w, hw, hsize, hperm⟩ := SparseVector.exists_of_nodup hd hr
  refine ⟨w, ?_, hsize, hperm⟩
  unfold vectorize
  rw [h, Outcome.ok_bind, hw]

/-- A record has a vector exactly when every span can read it. -/
theorem exists_vectorize_iff : (∃ w, v.vectorize r = .ok w) ↔ ∀ s ∈ v.spans, s.Readable r := by
  simp only [← Span.exists_entries_iff]
  rw [← Outcome.exists_mapM_eq_ok_iff]
  constructor
  · rintro ⟨w, hw⟩
    obtain ⟨es, hes, -⟩ := Outcome.bind_eq_ok.mp hw
    exact ⟨es, hes⟩
  · rintro ⟨es, hes⟩
    obtain ⟨w, hw, -⟩ := exists_of_mapM_entries hes
    exact ⟨w, hw⟩

/-- The vector of a record has as many indices as all spans together, and holds what the spans hold. -/
theorem mem_entries_vectorize_iff {w : SparseVector} (h : v.vectorize r = .ok w) :
    w.size = (v.spans.map Span.size).sum ∧
      ∀ i x, (i, x) ∈ w.entries ↔ ∃ s ∈ v.spans, s.Holds r i x := by
  obtain ⟨es, hes, -⟩ := Outcome.bind_eq_ok.mp h
  obtain ⟨w', hw', hsize, hperm⟩ := exists_of_mapM_entries hes
  rw [h, Except.ok.injEq] at hw'
  subst hw'
  refine ⟨hsize.trans v.size_eq_sum, fun i x => ?_⟩
  rw [hperm.mem_iff, List.mem_flatten]
  have hall := Outcome.mapM_eq_ok.mp hes
  constructor
  · rintro ⟨e, he, hmem⟩
    obtain ⟨s, hs, hse⟩ := Outcome.exists_left_of_forall₂ hall he
    exact ⟨s, hs, (Span.mem_entries_iff hse).mp hmem⟩
  · rintro ⟨s, hs, hholds⟩
    obtain ⟨e, he, hse⟩ := Outcome.exists_right_of_forall₂ hall hs
    exact ⟨e, he, (Span.mem_entries_iff hse).mpr hholds⟩

/-- A record without a vector is one that a span refuses, and every span before that one can read. -/
theorem vectorize_eq_error {e : Fault} :
    v.vectorize r = .error e ↔ ∃ before s after, v.spans = before ++ s :: after ∧
      (∀ t ∈ before, t.Readable r) ∧ s.entries r = .error e := by
  simp only [← Span.exists_entries_iff]
  rw [← Outcome.mapM_eq_error]
  constructor
  · intro h
    cases hes : v.spans.mapM (Span.entries · r) with
    | error e' =>
      unfold vectorize at h
      rw [hes, Outcome.error_bind, Except.error.injEq] at h
      rw [h]
    -- with the entries of all spans there would be a vector
    | ok es =>
      obtain ⟨w, hw, -⟩ := exists_of_mapM_entries hes
      rw [hw] at h
      cases h
  · intro h
    unfold vectorize
    rw [h, Outcome.error_bind]

/-- Vectorizing is the encoding that the spans declare. It succeeds exactly when every span can read the record,
and then stores what the spans hold and nothing else, by strictly ascending index; otherwise it fails with the
refusal of the first span that cannot, and never in putting the entries together. -/
theorem vectorize_encodes {spans : List Span} (h : ofSpans spans = .ok v) (r : Record) :
    ((∃ w, v.vectorize r = .ok w) ↔ ∀ s ∈ spans, s.Readable r) ∧
      (∀ w, v.vectorize r = .ok w →
        w.size = (spans.map Span.size).sum ∧ w.indices.Pairwise (· < ·) ∧
          (∀ i ∈ w.indices, i < w.size) ∧
          ∀ i x, (i, x) ∈ w.entries ↔ ∃ s ∈ spans, s.Holds r i x) ∧
      (∀ e, v.vectorize r = .error e →
        ∃ before s after cause, spans = before ++ s :: after ∧ (∀ t ∈ before, t.Readable r) ∧
          s.entries r = .error (.mismatch cause) ∧ s.Refuses r cause ∧ e = .mismatch cause) ∧
      ∀ i n, v.vectorize r ≠ .error (.mismatch (.indexOutOfRange i n)) ∧
        v.vectorize r ≠ .error (.mismatch (.notAscending i n)) := by
  obtain rfl : v.spans = spans := spans_of_ofSpans h
  have hrefuses : ∀ e, v.vectorize r = .error e →
      ∃ before s after cause, v.spans = before ++ s :: after ∧ (∀ t ∈ before, t.Readable r) ∧
        s.entries r = .error (.mismatch cause) ∧ s.Refuses r cause ∧ e = .mismatch cause := by
    intro e he
    obtain ⟨before, s, after, hspans, hbefore, hs⟩ := vectorize_eq_error.mp he
    obtain ⟨cause, rfl, hcause⟩ := Span.refuses_of_entries hs
    exact ⟨before, s, after, cause, hspans, hbefore, hs, hcause, rfl⟩
  refine ⟨exists_vectorize_iff, fun w hw => ?_, hrefuses, fun i n => ⟨fun he => ?_, fun he => ?_⟩⟩
  · obtain ⟨hsize, hmem⟩ := mem_entries_vectorize_iff hw
    exact ⟨hsize, w.ascending, w.inRange, hmem⟩
  -- no refusal of a span is about an index
  · obtain ⟨_, s, _, cause, -, -, -, hcause, heq⟩ := hrefuses _ he
    cases heq
    cases hcause
  · obtain ⟨_, s, _, cause, -, -, -, hcause, heq⟩ := hrefuses _ he
    cases heq
    cases hcause

def ageField : Field :=
  ⟨"age", .continuous "age" .double, .continuous, .double, []⟩

def gradeField : Field :=
  ⟨"grade", .categorical "grade" .string ["A", "B", "C"], .categorical, .string, []⟩

def visitSpans : List Span :=
  [⟨0, .continuous ageField⟩, ⟨1, .categorical gradeField⟩, ⟨4, .intercept "p0"⟩]

def visit : Record := fun field =>
  if field = "age" then [.integer 0]
  else if field = "grade" then [.string "C", .string "A", .string "C"]
  else []

/-- A zero is stored, and a category that is shown twice is stored once. -/
theorem vectorize_encodes_visit : ∃ v w, ofSpans visitSpans = .ok v ∧ v.vectorize visit = .ok w ∧
    w.size = 5 ∧ w.indices.Pairwise (· < ·) ∧ (0, 0.0) ∈ w.entries ∧ (1, 1.0) ∈ w.entries ∧
    (3, 1.0) ∈ w.entries ∧ (4, 1.0) ∈ w.entries := by
  have hv : ofSpans visitSpans = .ok ⟨visitSpans, rfl⟩ := rfl
  have hgrades : ∀ v ∈ gradeField.values visit, v.key gradeField.raw.dataType ∈ gradeField.categoryKeys := by
    decide +kernel
  have hread : ∀ s ∈ visitSpans, s.Readable visit := by
    simp only [visitSpans, List.forall_mem_cons, List.not_mem_nil, false_implies, implies_true, and_true]
    exact ⟨⟨.integer 0, 0.0, rfl, rfl⟩, hgrades, trivial⟩
  obtain ⟨w, hw⟩ := (vectorize_encodes hv visit).1.mpr hread
  obtain ⟨hsize, hascending, -, hmem⟩ := (vectorize_encodes hv visit).2.1 w hw
  have hage : Span.Holds visit ⟨0, .continuous ageField⟩ 0 0.0 :=
    .number (f := ageField) (v := .integer 0) rfl rfl
  have hfirst : Span.Holds visit ⟨1, .categorical gradeField⟩ (1 + 0) 1.0 :=
    .category (v := .string "A") (.tail _ (.head _)) rfl
  have hlast : Span.Holds visit ⟨1, .categorical gradeField⟩ (1 + 2) 1.0 :=
    .category (v := .string "C") (.head _) rfl
  exact ⟨_, w, hv, hw, hsize, hascending, (hmem _ _).mpr ⟨_, .head _, hage⟩,
    (hmem _ _).mpr ⟨_, .tail _ (.head _), hfirst⟩, (hmem _ _).mpr ⟨_, .tail _ (.head _), hlast⟩,
    (hmem _ _).mpr ⟨_, .tail _ (.tail _ (.head _)), .intercept⟩⟩

end Vectorizer

end Scoring
