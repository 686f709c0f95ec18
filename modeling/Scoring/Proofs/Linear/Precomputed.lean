import Scoring.Proofs.Linear.Predictor

/-!
# Precomputed — a regression on the vectors of documents and on vectors that the caller supplies

A regression without categories is compiled in two ways. On documents its coefficients follow the names of the fields,
and the intercept is one of them; on supplied vectors they follow the order of the terms, and the intercept stands
apart. `LinearModel.Places` says which number of the one model is which of the other, and `precomputed_agrees` that both
compilers accept the model and add up the same products.
-/

namespace Scoring

open Spec (Document NumericTerm RegressionTable)

/-! ## 1. Positions -/

def Slots.number (slots : Slots) (w : SparseVector) (parameter : String) : Float :=
  w.get ((slots.position? parameter).getD 0)

namespace Layout.Arrangement

variable {d : Declarations} {s : Scope} {l : Layout}

/-- The position of a parameter is the index of its slot. -/
theorem position?_eq_some_iff (a : Arrangement d s l) {p : String} {i : Nat} :
    l.slots.position? p = some i ↔ l.slots[i]? = some (some p) :=
  idxOf?_eq_some_iff_getElem? a.slot_unique

theorem exists_position (a : Arrangement d s l) {p : String} (hp : p ∈ d.parameters) :
    ∃ i, l.slots.position? p = some i ∧ l.slots[i]? = some (some p) := by
  obtain ⟨i, hi⟩ := a.exists_slot hp
  exact ⟨i, a.position?_eq_some_iff.mpr hi, hi⟩

/-- Where no slot is free, every index is the position of one parameter. -/
theorem positions_perm (a : Arrangement d s l) (hfull : ∀ i : Nat, l.slots[i]? ≠ some none) :
    (d.parameters.map fun p => (l.slots.position? p).getD 0).Perm (List.range l.slots.length) := by
  have hslot : ∀ p ∈ d.parameters, l.slots[(l.slots.position? p).getD 0]? = some (some p) := by
    intro p hp
    obtain ⟨i, hposition, hi⟩ := a.exists_position hp
    rw [hposition]
    exact hi
  have hnodup : (d.parameters.map fun p => (l.slots.position? p).getD 0).Nodup := by
    refine List.Nodup.map_on (fun p hp q hq heq => ?_) a.parameters_nodup
    have hpq := hslot p hp
    rw [heq, hslot q hq] at hpq
    simpa using hpq.symm
  refine (List.perm_ext_iff_of_nodup hnodup List.nodup_range).mpr fun i => ?_
  rw [List.mem_range, List.mem_map]
  constructor
  · rintro ⟨p, hp, rfl⟩
    exact (List.getElem?_eq_some_iff.mp (hslot p hp)).1
  · intro hi
    have hget := List.getElem?_eq_getElem hi
    cases hfree : l.slots[i] with
    | none => exact absurd (hfree ▸ hget) (hfull i)
    | some p =>
      rw [hfree] at hget
      refine ⟨p, a.declared_of_slot hget, ?_⟩
      rw [a.position?_eq_some_iff.mpr hget, Option.getD_some]

/-! ## 2. Layouts without categories -/

/-- A field whose cells name no category is laid out as a number. -/
theorem kind_ne_categorical (a : Arrangement d s l) (hcells : ∀ c ∈ d.cells, c.category = none) :
    ∀ span ∈ l.spans, span.kind ≠ .categorical := by
  intro span hspan hkind
  rw [a.layout_eq] at hspan
  obtain ⟨b, hb, rfl⟩ := List.mem_map.mp hspan
  rcases List.mem_append.mp hb with hb | hb
  · obtain ⟨e, he, f, -, hs, hslots⟩ := Outcome.exists_left_of_forall₂ a.ofFields hb
    obtain ⟨c, hc, hfield⟩ := List.mem_map.mp (mem_names_cellsByField.mp (List.mem_map_of_mem he))
    have hce : c ∈ e.2 := by
      rw [eq_filter_of_mem_cellsByField he, List.mem_filter]
      exact ⟨hc, by simpa using hfield⟩
    rcases Span.ofField_eq_ok.mp hs with ⟨-, -, heq⟩ | ⟨-, -, hk, heq⟩
    · rw [heq] at hkind
      cases hkind
    -- every cell of a field of categories names one
    · rw [heq] at hslots
      obtain ⟨v, i, hv, -⟩ := (slotsOf_categorical hk hslots).2 c hce
      rw [hcells c hc] at hv
      cases hv
  · obtain ⟨p, -, hencoding, -⟩ := Outcome.exists_left_of_forall₂ a.ofIntercepts hb
    unfold Span.kind at hkind
    rw [hencoding] at hkind
    cases hkind

end Layout.Arrangement

/-- Spans of numbers and intercepts store an entry each, at one index after the other. -/
theorem Span.Contiguous.indices_stored {start : Nat} {spans : List Span} (h : Contiguous start spans)
    (hkind : ∀ span ∈ spans, span.kind ≠ .categorical) {r : Record}
    (hread : ∀ span ∈ spans, ∃ es, span.entries r = .ok es) :
    ((spans.map fun span => span.stored r).flatten).map Prod.fst =
      List.range' start (spans.map size).sum := by
  induction spans generalizing start with
  | nil => rfl
  | cons span rest ih =>
    obtain ⟨hoff, hrest⟩ := h
    rw [List.forall_mem_cons] at hkind hread
    have hone : (span.stored r).map Prod.fst = [start] ∧ span.size = 1 := by
      obtain ⟨offset, encoding⟩ := span
      cases hoff
      cases encoding with
      | continuous f =>
        obtain ⟨es, hes⟩ := hread.1
        obtain ⟨x, hx, -⟩ := entries_continuous.mp hes
        unfold stored
        simp [hx, size]
      | categorical f => exact absurd rfl hkind.1
      | intercept p => exact ⟨rfl, rfl⟩
    have hstop : span.stop = start + 1 := by
      unfold stop
      rw [hoff, hone.2]
    rw [List.map_cons, List.flatten_cons, List.map_append, hone.1, ih hrest hkind.2 hread.2, List.map_cons,
      List.sum_cons, hone.2, hstop, Nat.add_comm 1, List.range'_succ]
    rfl

/-! ## 3. Products -/

namespace LinearModel

def products (m : LinearModel) (w : SparseVector) : List Float :=
  w.entries.map fun e => m.coefficients.getD e.1 0.0 * e.2

/-- The score is the sum of the products and the intercept. -/
theorem score_eq_sum {m : LinearModel} {w : SparseVector} (h : m.size = w.size) :
    m.score w = .ok (Arithmetic.sum (m.products w) + m.intercept) := by
  unfold size at h
  unfold score SparseVector.dot
  rw [if_pos h, Outcome.ok_bind]
  rfl

/-- On a vector that stores every index the products are those of the coefficients with the numbers. -/
theorem products_of_range {m : LinearModel} {w : SparseVector} {xs : List Float}
    (hw : w.entries = (List.range xs.length).zip xs) (hsize : m.size = xs.length) :
    m.products w = List.zipWith (· * ·) m.coefficients xs := by
  unfold size at hsize
  unfold products
  rw [hw]
  refine List.ext_getElem (by simp [hsize]) fun i hi hi' => ?_
  have hlt : i < m.coefficients.length := by
    rw [List.length_zipWith] at hi'
    omega
  simp [List.getElem?_eq_getElem hlt]

end LinearModel

theorem Layout.Arrangement.products_perm {d : Declarations} {s : Scope} {l : Layout} (a : Arrangement d s l)
    (hfull : ∀ i : Nat, l.slots[i]? ≠ some none) (m : LinearModel) {w : SparseVector}
    (hw : w.indices = List.range l.slots.length) :
    (m.products w).Perm (d.parameters.map fun p =>
      m.coefficients.getD ((l.slots.position? p).getD 0) 0.0 * l.slots.number w p) := by
  unfold LinearModel.products
  rw [w.entries_eq_map_get, hw, List.map_map]
  have hperm := (a.positions_perm hfull).symm.map fun i => m.coefficients.getD i 0.0 * w.get i
  rwa [List.map_map] at hperm

/-! ## 4. The two models -/

/-- `l'` has the coefficients of numeric terms in their order and the intercept apart, where `l` has them all in the
order of its slots. -/
structure LinearModel.Places (terms : List NumericTerm) (slots : Slots) (l l' : LinearModel) : Prop where
  classes : l'.classes = l.classes
  size : l.size = l'.size + 1
  length_terms : l'.size = terms.length
  coefficient : ∀ (j : Nat) t, terms[j]? = some t → ∃ i c,
    slots.position? (Compile.numericCell t).parameter = some i ∧ l'.coefficients[j]? = some c ∧
      l.coefficients[i]? = some c
  intercept : ∃ i, slots.position? Compile.interceptParameter = some i ∧
    l.coefficients[i]? = some l'.intercept

namespace Spec.RegressionTable

variable {t : RegressionTable}

theorem cells_of_numeric (h : t.categoryTerms = []) :
    t.declarations.cells = t.numericTerms.map Compile.numericCell := by
  unfold declarations Compile.tableCells
  simp only [h, List.map_nil, List.append_nil, List.map_map, Function.comp_def]

theorem tableParameters_of_numeric (h : t.categoryTerms = []) :
    Compile.tableParameters t =
      t.numericTerms.map (fun n => ((Compile.numericCell n).parameter, n.coefficient)) ++
        [(Compile.interceptParameter, t.intercept)] := by
  unfold Compile.tableParameters Compile.tableCells
  simp only [h, List.map_nil, List.append_nil, List.map_map, Function.comp_def]

end Spec.RegressionTable

namespace Compile

variable {t : RegressionTable} {s : Scope} {l : Layout}

/-- The coefficient at the position of a parameter is the one that the table gives it. -/
theorem coefficient_of_parameter (h : Layout.arrange t.declarations s = .ok l) {p : String × Float}
    (hp : p ∈ tableParameters t) :
    ∃ i, l.slots.position? p.1 = some i ∧
      (l.slots.coefficients (Table.ofList (tableParameters t)))[i]? = some p.2 := by
  obtain ⟨a⟩ := Layout.nonempty_arrangement h
  obtain ⟨i, hposition, hi⟩ := a.exists_position (List.mem_map_of_mem hp)
  refine ⟨i, hposition, ?_⟩
  have hfind : (Table.ofList (tableParameters t)).find? p.1 = some p.2 := by
    rw [Table.find?_ofList a.parameters_nodup]
    exact (Table.lookup_eq_some_iff a.parameters_nodup).mpr hp
  unfold Slots.coefficients Slots.coefficient
  rw [List.getElem?_map, hi, Option.map_some, Option.bind_some, hfind, Option.getD_some]

theorem kind_of_numeric (a : Layout.Arrangement t.declarations s l) (hnumeric : t.categoryTerms = []) :
    ∀ span ∈ l.spans, span.kind ≠ .categorical := by
  apply a.kind_ne_categorical
  rw [RegressionTable.cells_of_numeric hnumeric, List.forall_mem_map]
  exact fun _ _ => rfl

/-- A layout of numeric terms has a slot for each of them and one for the intercept, and leaves none free. -/
theorem slots_of_numeric (h : Layout.arrange t.declarations s = .ok l) (hnumeric : t.categoryTerms = []) :
    (∀ i : Nat, l.slots[i]? ≠ some none) ∧ l.slots.length = t.numericTerms.length + 1 := by
  obtain ⟨a⟩ := Layout.nonempty_arrangement h
  have hfull : ∀ i : Nat, l.slots[i]? ≠ some none := by
    intro i hi
    obtain ⟨span, hspan, hkind, -⟩ := a.kind_of_free hi
    exact kind_of_numeric a hnumeric span hspan hkind
  refine ⟨hfull, ?_⟩
  have hlength := (a.positions_perm hfull).length_eq
  rw [List.length_map, List.length_range] at hlength
  rw [← hlength]
  show ((tableParameters t).map (·.1)).length = _
  rw [RegressionTable.tableParameters_of_numeric hnumeric]
  simp

/-- The intercept of every vector is one. -/
theorem number_intercept (h : Layout.arrange t.declarations s = .ok l) {v : Vectorizer}
    (hv : v.spans = l.spans) (r : Record) :
    l.slots.number (v.stored r) interceptParameter = 1.0 := by
  obtain ⟨a⟩ := Layout.nonempty_arrangement h
  have hunclaimed : interceptParameter ∈ t.declarations.unclaimed := by
    -- the intercept is the last parameter, and no parameter is declared twice
    have hnodup := a.parameters_nodup
    rw [t.parameters_eq] at hnodup
    have hfresh := (List.nodup_append.mp hnodup).2.2
    rw [Declarations.mem_unclaimed, t.parameters_eq, List.mem_append]
    exact ⟨Or.inr (List.mem_singleton_self _), fun hmem => hfresh _ hmem _ (List.mem_singleton_self _) rfl⟩
  obtain ⟨b, hb, hencoding, hslot⟩ := a.slot_of_unclaimed hunclaimed
  unfold Slots.number
  rw [a.position?_eq_some_iff.mpr hslot, Option.getD_some]
  refine SparseVector.get_of_mem ?_
  rw [Vectorizer.entries_stored, hv, List.mem_flatten]
  refine ⟨b.span.stored r, List.mem_map_of_mem (a.mem_spans (List.mem_append_right _ hb)), ?_⟩
  unfold Span.stored
  rw [hencoding]
  exact List.mem_singleton_self _

/-- The coefficients of the terms in their order are those of the layout at the positions of their parameters. -/
theorem places_of_numeric (h : Layout.arrange t.declarations s = .ok l) (hnumeric : t.categoryTerms = [])
    (classes : Classes) :
    LinearModel.Places t.numericTerms l.slots
      ⟨l.slots.coefficients (Table.ofList (tableParameters t)), 0.0, classes, some l.slots⟩
      ⟨t.numericTerms.map (·.coefficient), t.intercept, classes, none⟩ where
  classes := rfl
  size := by
    unfold LinearModel.size Slots.coefficients
    rw [List.length_map, List.length_map, (slots_of_numeric h hnumeric).2]
  length_terms := List.length_map _
  coefficient j n hn := by
    have hp : ((numericCell n).parameter, n.coefficient) ∈ tableParameters t := by
      rw [RegressionTable.tableParameters_of_numeric hnumeric]
      exact List.mem_append_left _ (List.mem_map_of_mem (List.mem_of_getElem? hn))
    obtain ⟨i, hposition, hi⟩ := coefficient_of_parameter h hp
    refine ⟨i, n.coefficient, hposition, ?_, hi⟩
    rw [List.getElem?_map, hn, Option.map_some]
  intercept := by
    refine coefficient_of_parameter (p := (interceptParameter, t.intercept)) h ?_
    exact List.mem_append_right _ (List.mem_singleton_self _)

/-- On the vector of a record the products are those of the terms and of the intercept, in the order of the slots. -/
theorem products_of_numeric (h : Layout.arrange t.declarations s = .ok l) (hnumeric : t.categoryTerms = [])
    {v : Vectorizer} (hv : v.spans = l.spans) (classes : Classes) {r : Record} {w : SparseVector}
    (hw : v.vectorize r = .ok w) :
    (LinearModel.products
      ⟨l.slots.coefficients (Table.ofList (tableParameters t)), 0.0, classes, some l.slots⟩ w).Perm
      (t.numericTerms.map (fun n => n.coefficient * l.slots.number w (numericCell n).parameter) ++
        [t.intercept * 1.0]) := by
  obtain ⟨a⟩ := Layout.nonempty_arrangement h
  obtain ⟨hfull, -⟩ := slots_of_numeric h hnumeric
  obtain ⟨rfl, es, hes⟩ := Vectorizer.eq_stored_of_vectorize (hv ▸ a.wellFormed) hw
  have hindices : (v.stored r).indices = List.range l.slots.length := by
    have hread : ∀ span ∈ v.spans, ∃ es, span.entries r = .ok es :=
      Outcome.exists_mapM_eq_ok_iff.mp ⟨es, hes⟩
    rw [a.length_slots, List.range_eq_range', ← hv]
    exact (Span.gap?_eq_none_iff.mp v.aligned).indices_stored (hv ▸ kind_of_numeric a hnumeric) hread
  have hperm := a.products_perm hfull
    ⟨l.slots.coefficients (Table.ofList (tableParameters t)), 0.0, classes, some l.slots⟩ hindices
  -- parameter by parameter the coefficient is the one that the table gives
  have hparameters : (t.declarations.parameters.map fun p =>
      (l.slots.coefficients (Table.ofList (tableParameters t))).getD ((l.slots.position? p).getD 0) 0.0 *
        l.slots.number (v.stored r) p) =
      (tableParameters t).map fun p => p.2 * l.slots.number (v.stored r) p.1 := by
    unfold RegressionTable.declarations
    rw [List.map_map]
    refine List.map_congr_left fun p hp => ?_
    obtain ⟨i, hposition, hi⟩ := coefficient_of_parameter h hp
    rw [Function.comp_apply, hposition, Option.getD_some, List.getD_eq_getElem?_getD, hi, Option.getD_some]
  have hterms : ((tableParameters t).map fun p => p.2 * l.slots.number (v.stored r) p.1) =
      t.numericTerms.map (fun n => n.coefficient * l.slots.number (v.stored r) (numericCell n).parameter) ++
        [t.intercept * 1.0] := by
    rw [RegressionTable.tableParameters_of_numeric hnumeric, List.map_append, List.map_map]
    simp only [List.map_cons, List.map_nil, Function.comp_def, number_intercept h hv]
  rwa [hparameters, hterms] at hperm

/-- The vector of a number for each term, with what it contributes to the model on such vectors. -/
theorem exists_supplied (terms : List NumericTerm) (number : NumericTerm → Float) (intercept : Float)
    (classes : Classes) :
    ∃ w, SparseVector.ofParts terms.length (List.range terms.length) (terms.map number) = .ok w ∧
      w.size = terms.length ∧
      LinearModel.products ⟨terms.map (·.coefficient), intercept, classes, none⟩ w =
        terms.map fun t => t.coefficient * number t := by
  obtain ⟨w, hw, hsize, hentries⟩ := SparseVector.exists_ofParts_range (terms.map number)
  rw [List.length_map] at hw hsize
  refine ⟨w, hw, hsize, ?_⟩
  rw [LinearModel.products_of_range hentries (by simp [LinearModel.size]), List.zipWith_map_left,
    List.zipWith_map_right, List.zipWith_self]

/-! ## 5. Both compilers -/

/-- A regression without categories that is accepted for documents is accepted for supplied vectors as well, with the
same kind and the same classes. The coefficient of each term and the intercept are those of the field-based model at
the positions of their parameters. For every record that has a vector, the supplied vector with the number of each term
at the place of the term gives the same products; the intercept, multiplied with one in the one model, is added apart
in the other. -/
theorem precomputed_agrees {d : Document} {m : Spec.Regression} {s : Scorer} (h : regression d m = .ok s)
    (hnumeric : ∀ t ∈ m.tables, t.categoryTerms = []) :
    ∃ table rest v slots kind l p l', m.tables = [table, rest] ∧
      s.pipeline = .vector v ∧ s.classifier = LinearKind.classifier kind l ∧ l.parameters = some slots ∧
      precomputedRegression d m = .ok p ∧ p.pipeline = .precomputed l'.size ∧
      p.classifier = LinearKind.classifier kind l' ∧ v.size = l'.size + 1 ∧
      LinearModel.Places table.numericTerms slots l l' ∧
      ∀ r w, v.vectorize r = .ok w →
        ∃ w', SparseVector.ofParts l'.size (List.range l'.size)
            (table.numericTerms.map fun t => slots.number w (numericCell t).parameter) = .ok w' ∧
          (l.products w).Perm (l'.products w' ++ [l'.intercept * 1.0]) ∧
          l.score w = .ok (Arithmetic.sum (l.products w) + 0.0) ∧
          l'.score w' = .ok (Arithmetic.sum (l'.products w') + l'.intercept) := by
  obtain ⟨kind, table, classes, layout, v, hparts, hexponents, hlayout, hv, rfl⟩ := regression_eq_ok.mp h
  obtain ⟨rest, target, htables, -⟩ := steps_of_regressionParts hparts
  have htable : table.categoryTerms = [] := hnumeric table (by rw [htables]; exact List.mem_cons_self)
  have hspans := Vectorizer.spans_of_ofSpans hv
  have hplaces := places_of_numeric hlayout htable classes
  obtain ⟨a⟩ := Layout.nonempty_arrangement hlayout
  have hsize : v.size = layout.slots.length := by
    rw [v.size_eq_sum, hspans, a.length_slots]
  refine ⟨table, rest, v, layout.slots, kind, _, _, _, htables, rfl, rfl, rfl,
    precomputedRegression_eq_ok.mpr ⟨kind, table, classes, hparts, htable, hexponents, rfl⟩, ?_, rfl, ?_, hplaces,
    fun r w hw => ?_⟩
  · rw [hplaces.length_terms]
  · rw [hsize, (slots_of_numeric hlayout htable).2, hplaces.length_terms]
  · obtain ⟨w', hw', hsize', hproducts⟩ := exists_supplied table.numericTerms
      (fun t => layout.slots.number w (numericCell t).parameter) table.intercept classes
    have hperm := products_of_numeric hlayout htable hspans classes hw
    have hwsize : w.size = v.size :=
      congrArg SparseVector.size (Vectorizer.eq_stored_of_vectorize (hspans ▸ a.wellFormed) hw).1
    refine ⟨w', ?_, ?_, LinearModel.score_eq_sum ?_, LinearModel.score_eq_sum ?_⟩
    · rw [hplaces.length_terms]
      exact hw'
    · rw [hproducts]
      exact hperm
    · rw [hplaces.size, hplaces.length_terms, hwsize, hsize, (slots_of_numeric hlayout htable).2]
    · rw [hplaces.length_terms, hsize']

/-! A support vector machine whose terms do not stand in the order of their names. -/

def hoursDocument : Document where
  version := none
  dictionary := ⟨[.continuous "hours" .double, .continuous "age" .double,
    .categorical "y" .integer ["0", "1"]]⟩
  transformations := ⟨[]⟩
  models := []

def hoursRegression : Spec.Regression where
  name := none
  function := .classification
  normalization := .none
  schema := ⟨[.active "hours", .active "age", .target "y"]⟩
  transformations := ⟨[]⟩
  tables := [⟨1.0, some "1", [⟨"hours", 1, 0.25⟩, ⟨"age", 1, 0.5⟩], []⟩, ⟨0.0, some "0", [], []⟩]

def hoursRecord : Record := fun field =>
  if field = "age" then [.integer 40] else if field = "hours" then [.double 7.5] else []

theorem precomputed_agrees_hours :
    ∃ s v l p l' w w', regression hoursDocument hoursRegression = .ok s ∧ s.pipeline = .vector v ∧
      s.classifier = .margin l ∧ l.coefficients = [0.5, 0.25, 1.0] ∧
      precomputedRegression hoursDocument hoursRegression = .ok p ∧ p.classifier = .margin l' ∧
      v.vectorize hoursRecord = .ok w ∧ (l.products w).Perm (l'.products w' ++ [l'.intercept * 1.0]) := by
  have hparts : (regression hoursDocument hoursRegression).toOption.map
      (fun s => (reads s hoursRecord, marginParts? s)) =
        some (true, some ([.continuous, .continuous, .intercept], [0.5, 0.25, 1.0])) := by decide +kernel
  obtain ⟨s, hs, hparts⟩ := Outcome.exists_of_toOption_map hparts
  obtain ⟨hread, hmargin⟩ := Prod.mk.inj hparts
  obtain ⟨table, rest, v, slots, kind, l, p, l', -, hv, hl, -, hp, -, hl', -, -, hproducts⟩ :=
    precomputed_agrees hs (by simp [hoursRegression])
  obtain ⟨w, hw⟩ : ∃ w, v.vectorize hoursRecord = .ok w := by
    obtain ⟨kind', table', rest', layout, classes, v', -, hlayout, hspans, rfl⟩ := exists_of_regression hs
    obtain ⟨a⟩ := Layout.nonempty_arrangement hlayout
    cases hv
    exact Vectorizer.exists_of_entries (hspans ▸ a.wellFormed) hread
  obtain ⟨w', -, hperm, -⟩ := hproducts hoursRecord w hw
  unfold marginParts? at hmargin
  rw [hv, hl] at hmargin
  cases kind with
  | logistic => cases hmargin
  | margin =>
    obtain ⟨-, hcoefficients⟩ := Prod.mk.inj (Option.some.inj hmargin)
    exact ⟨s, v, l, p, l', w, w', hs, hv, hl, hcoefficients, hp, hl', hw, hperm⟩

end Compile

end Scoring
