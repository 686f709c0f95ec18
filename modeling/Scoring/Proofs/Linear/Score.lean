import Scoring.Proofs.Compile
import Scoring.Proofs.Layout.Alignment

/-!
# Score — the sum that a linear model stands for

`Declarations.terms` reads a linear model by its names alone: it asks for the fields in order of their names, takes
the coefficient of each parameter, and never speaks of an index. What a compiled model computes through layout,
coefficients and sparse vectors is the sum of just these terms, added in the same order (`linear_score`).
-/

namespace Scoring

/-! ## 1. Terms by name -/

/-- The coefficient of a category: that of the parameter tied to it, zero where nothing is. -/
def categoryBeta (beta : String → Float) (cells : List Cell) (f : Field) (category : String) : Float :=
  match cells.find? fun c => c.names f category with
  | some c => beta c.parameter
  | none => 0.0

def Field.terms (beta : String → Float) (cells : List Cell) (r : Record) (f : Field) :
    Outcome (List Float) :=
  match f.optype with
  | .continuous => do
    let x ← Span.number f r
    .ok (cells.map fun c => beta c.parameter * x)
  | _ =>
    .ok ((f.categories.filter (f.shows r)).map fun category => categoryBeta beta cells f category * 1.0)

/-- What a record contributes to the score: field by field in the order of names, then one term for each parameter
without a cell. -/
def Declarations.terms (d : Declarations) (s : Scope) (beta : String → Float) (r : Record) :
    Outcome (List Float) := do
  let fields ← (Table.ofNames (d.cells.map (·.field))).names.mapM fun name => do
    Field.terms beta (d.cells.filter (·.field == name)) r (← s.resolve name)
  .ok (fields.flatten ++ d.unclaimed.map fun p => beta p * 1.0)

/-! ## 2. Terms of a block -/

/-- A list filtered by its items, with `g` of their positions, is the filtered list with `h` of its items when `g`
and `h` agree on every position. -/
theorem map_filter_zipIdx {α β : Type} {xs : List α} {p : α → Bool} {g : Nat → β} {h : α → β}
    (hgh : ∀ (i : Nat) x, xs[i]? = some x → g i = h x) :
    (xs.zipIdx.filter fun e => p e.1).map (fun e => g e.2) = (xs.filter p).map h := by
  have hfst : xs.filter p = (xs.zipIdx.filter fun e => p e.1).map Prod.fst := by
    conv_lhs => rw [← List.zipIdx_map_fst 0 xs]
    rw [List.filter_map]
    rfl
  rw [hfst, List.map_map]
  refine List.map_congr_left fun e he => ?_
  exact hgh e.2 e.1 (List.mem_zipIdx_iff_getElem?.mp (List.mem_filter.mp he).1)

namespace Block

def products (coefficients : List Float) (r : Record) (b : Block) : List Float :=
  (b.span.stored r).map fun e => coefficients.getD e.1 0.0 * e.2

def Weighs (coefficients : List Float) (betas : Table Float) (b : Block) : Prop :=
  ∀ k slot, b.slots[k]? = some slot →
    coefficients.getD (b.span.offset + k) 0.0 = Slots.coefficient betas slot

theorem InRow.weighs {bs : List Block} (h : InRow 0 bs) {b : Block} (hb : b ∈ bs) (betas : Table Float) :
    b.Weighs ((Layout.ofBlocks bs).slots.coefficients betas) betas := by
  intro k slot hslot
  have hindex := h.slot_of_mem hb hslot
  unfold Slots.coefficients
  rw [List.getD_eq_getElem?_getD, List.getElem?_map, hindex]
  rfl

variable {coefficients : List Float} {betas : Table Float} {beta : String → Float} {r : Record} {b : Block}

theorem OfIntercept.products_eq {p : String} (h : OfIntercept p b) (hw : b.Weighs coefficients betas)
    (hbeta : ∀ p, (betas.find? p).getD 0.0 = beta p) : b.products coefficients r = [beta p * 1.0] := by
  obtain ⟨⟨offset, encoding⟩, slots⟩ := b
  obtain ⟨hencoding, hslots⟩ := h
  simp only at hencoding hslots
  subst hencoding hslots
  have hcoefficient := hw 0 (some p) rfl
  show [coefficients.getD offset 0.0 * 1.0] = _
  rw [show coefficients.getD offset 0.0 = Slots.coefficient betas (some p) from hcoefficient, ← hbeta]
  rfl

/-- A field that a record can be read by contributes its terms. -/
theorem OfField.products_eq {s : Scope} {e : String × List Cell} (h : OfField s e b)
    (hw : b.Weighs coefficients betas) (hbeta : ∀ p, (betas.find? p).getD 0.0 = beta p)
    {es : List (Nat × Float)} (hes : b.span.entries r = .ok es) :
    (s.resolve e.1 >>= Field.terms beta e.2 r) = .ok (b.products coefficients r) := by
  obtain ⟨⟨offset, encoding⟩, slots⟩ := b
  obtain ⟨f, hf, hspan, hslots⟩ := h
  rw [hf, Outcome.ok_bind]
  simp only at hspan hslots hes
  unfold Field.terms
  rcases Span.ofField_eq_ok.mp hspan with ⟨hop, -, hs⟩ | ⟨hop, -, hk, hs⟩
  -- one slot, whose parameter is that of the only cell
  · cases hs
    rw [hop]
    obtain ⟨c, hcells, hslot⟩ := Layout.slotsOf_continuous hslots
    obtain ⟨x, hx, -⟩ := Span.entries_continuous.mp hes
    have hcoefficient := hw 0 (some c.parameter) (by rw [hslot]; rfl)
    have hbc : coefficients.getD offset 0.0 = beta c.parameter := hcoefficient.trans (hbeta c.parameter)
    unfold Block.products Span.stored
    simp only [hx, Outcome.ok_bind, hcells, List.map_cons, List.map_nil, hbc]
  · cases hs
    rw [hop]
    have hclaimed := (Layout.slotsOf_categorical hk hslots).1
    unfold Block.products Span.stored
    simp only [List.map_map, Function.comp_def, Except.ok.injEq]
    symm
    -- the coefficient at the position of a category is that of the category
    refine map_filter_zipIdx (g := fun i => coefficients.getD (offset + i) 0.0 * 1.0) fun i category hi => ?_
    have hslot : slots[i]? = some ((e.2.find? fun c => c.names f category).map (·.parameter)) := by
      rw [hclaimed]
      unfold Layout.claimed
      rw [List.getElem?_map, hi, Option.map_some]
    have hcoefficient := hw i _ hslot
    simp only at hcoefficient
    rw [hcoefficient]
    unfold categoryBeta Slots.coefficient
    cases e.2.find? fun c => c.names f category with
    | none => rfl
    | some c =>
      show (betas.find? c.parameter).getD 0.0 * 1.0 = beta c.parameter * 1.0
      rw [hbeta]

end Block

/-! ## 3. Terms of a layout -/

namespace Layout

/-- The fields with cells by name, however they are collected. -/
theorem names_ofNames_fields (cells : List Cell) :
    (Table.ofNames (cells.map (·.field))).names = (cellsByField cells).names := by
  apply eq_of_ascending_of_mem_iff (Table.names_pairwise _) (Table.names_pairwise _)
  intro n
  rw [Table.mem_ofNames, mem_names_cellsByField]

namespace Arrangement

variable {d : Declarations} {s : Scope} {l : Layout} {betas : Table Float} {beta : String → Float}

theorem weighs (a : Arrangement d s l) {b : Block} (hb : b ∈ a.fields ++ a.intercepts)
    (betas : Table Float) : b.Weighs (l.slots.coefficients betas) betas := by
  rw [a.slots_eq]
  exact a.inRow.weighs hb betas

/-- Where the blocks can read a record, their products are the terms. -/
theorem terms_eq (a : Arrangement d s l) (hbeta : ∀ p, (betas.find? p).getD 0.0 = beta p) {r : Record}
    (hread : ∀ b ∈ a.fields, ∃ es, b.span.entries r = .ok es) :
    d.terms s beta r = .ok
      (((a.fields ++ a.intercepts).map (Block.products (l.slots.coefficients betas) r)).flatten) := by
  have hfields : (Table.ofNames (d.cells.map (·.field))).names.mapM (fun name => do
      Field.terms beta (d.cells.filter (·.field == name)) r (← s.resolve name)) =
        (.ok (a.fields.map (Block.products (l.slots.coefficients betas) r)) : Outcome (List (List Float))) := by
    rw [names_ofNames_fields, Outcome.mapM_eq_ok]
    unfold Table.names
    rw [List.forall₂_map_left_iff, List.forall₂_map_right_iff]
    -- entry by entry, with what is known of the entries and of the blocks
    have hof := List.forall₂_iff_get.mp a.ofFields
    refine List.forall₂_iff_get.mpr ⟨hof.1, fun i hi hi' => ?_⟩
    have hblock := hof.2 i hi hi'
    have hb := List.get_mem a.fields ⟨i, hi'⟩
    have hcells := eq_filter_of_mem_cellsByField (List.get_mem (cellsByField d.cells).entries ⟨i, hi⟩)
    obtain ⟨es, hes⟩ := hread _ hb
    have := hblock.products_eq (a.weighs (List.mem_append_left _ hb) betas) hbeta hes
    rwa [hcells] at this
  have hintercepts : (d.unclaimed.map fun p => beta p * 1.0) =
      (a.intercepts.map (Block.products (l.slots.coefficients betas) r)).flatten := by
    have hw : ∀ b ∈ a.intercepts, b.Weighs (l.slots.coefficients betas) betas := fun b hb =>
      a.weighs (List.mem_append_right _ hb) betas
    have hof := a.ofIntercepts
    generalize a.intercepts = bs at hof hw ⊢
    generalize d.unclaimed = ps at hof ⊢
    -- parameter by parameter, with one slot in each block
    induction hof with
    | nil => rfl
    | @cons p b ps bs hpb _ ih =>
      rw [List.map_cons, List.map_cons, List.flatten_cons,
        ← ih fun b hb => hw b (List.mem_cons_of_mem _ hb),
        hpb.products_eq (hw b List.mem_cons_self) hbeta]
      rfl
  unfold Declarations.terms
  rw [hfields, Outcome.ok_bind, hintercepts, List.map_append, List.flatten_append]

/-- The score of a record's vector is the sum of its terms. -/
theorem score_eq (a : Arrangement d s l) (hbeta : ∀ p, (betas.find? p).getD 0.0 = beta p)
    {v : Vectorizer} (hv : v.spans = l.spans) {classes : Classes} {r : Record} {w : SparseVector}
    (hw : v.vectorize r = .ok w) :
    ∃ terms, d.terms s beta r = .ok terms ∧
      (⟨l.slots.coefficients betas, 0.0, classes, some l.slots⟩ : LinearModel).score w =
        .ok (Arithmetic.sum terms + 0.0) := by
  -- a vector is there, so every span could read the record
  obtain ⟨rfl, es, hes⟩ := Vectorizer.eq_stored_of_vectorize (hv ▸ a.wellFormed) hw
  refine ⟨_, a.terms_eq hbeta fun b hb => ?_, ?_⟩
  · rw [Outcome.mapM_eq_ok, hv] at hes
    obtain ⟨es', -, hb'⟩ := Outcome.exists_right_of_forall₂ hes (a.mem_spans (List.mem_append_left _ hb))
    exact ⟨es', hb'⟩
  -- there is a coefficient for each index, so the product is defined
  · have hsize : (l.slots.coefficients betas).length = (v.stored r).size := by
      rw [Vectorizer.size_stored, v.size_eq_sum, hv, ← a.length_slots]
      exact List.length_map _
    unfold LinearModel.score SparseVector.dot
    rw [if_pos hsize, Outcome.ok_bind, Vectorizer.entries_stored, hv, a.spans_eq, ← List.map_append,
      List.map_map, List.map_flatten, List.map_map]
    rfl

end Arrangement

end Layout

/-! ## 4. Compiled models -/

open Spec (Document GeneralRegression RegressionTable)

/-- The score of every record that can be vectorized is the sum of the terms of the declarations. -/
def Scorer.Sums (c : Scorer) (d : Declarations) (s : Scope) (beta : String → Float) : Prop :=
  ∃ v m, c.pipeline = .vector v ∧ (c.classifier = .logistic m ∨ c.classifier = .margin m) ∧
    ∀ r w, v.vectorize r = .ok w →
      ∃ terms, d.terms s beta r = .ok terms ∧ m.score w = .ok (Arithmetic.sum terms + 0.0)

namespace Compile

variable {d : Document}

theorem beta_of_mem {m : GeneralRegression} (hd : (m.coefficientCells.map (·.parameter)).Nodup)
    {c : Spec.CoefficientCell} (hc : c ∈ m.coefficientCells) : m.beta c.parameter = c.beta := by
  unfold GeneralRegression.beta
  cases hfind : m.coefficientCells.find? (·.parameter == c.parameter) with
  | none => simpa using List.find?_eq_none.mp hfind c hc
  | some c' =>
    have hsame : c'.parameter = c.parameter := by simpa using List.find?_some hfind
    have hcell := List.inj_on_of_nodup_map hd (List.mem_of_find?_eq_some hfind) hc hsame
    rw [hcell]
    rfl

theorem beta_of_notMem {m : GeneralRegression} {p : String}
    (hp : p ∉ m.coefficientCells.map (·.parameter)) : m.beta p = 0.0 := by
  unfold GeneralRegression.beta
  have hnone : m.coefficientCells.find? (·.parameter == p) = none := by
    refine List.find?_eq_none.mpr fun c hc => ?_
    rw [beq_iff_eq]
    intro heq
    exact hp (heq ▸ List.mem_map_of_mem hc)
  rw [hnone]
  rfl

theorem nodup_coefficients {m : GeneralRegression} {s : Scorer} (h : generalRegression d m = .ok s) :
    (m.coefficientCells.map (·.parameter)).Nodup := by
  obtain ⟨layout, betas, classes, v, -, hbetas, -, -⟩ := exists_of_generalRegression h
  exact (find?_of_foldlM_addCoefficient hbetas).1

theorem sums_of_generalRegression {m : GeneralRegression} {s : Scorer}
    (h : generalRegression d m = .ok s) :
    s.Sums m.declarations (scope d m.schema m.transformations) m.beta := by
  obtain ⟨layout, betas, classes, v, hlayout, hbetas, hv, rfl⟩ := exists_of_generalRegression h
  obtain ⟨a⟩ := Layout.nonempty_arrangement hlayout
  refine ⟨v, _, rfl, Or.inl rfl, fun r w hw => a.score_eq (fun p => ?_) hv hw⟩
  rw [(find?_of_foldlM_addCoefficient hbetas).2.2, Table.find?_empty, Option.or_none]
  rfl

/-- A compiled table declares no parameter twice, so a look-up finds the coefficient of each. -/
theorem beta_of_parameter {t : RegressionTable} {s : Scope} {l : Layout}
    (h : Layout.arrange t.declarations s = .ok l) {p : String × Float} (hp : p ∈ tableParameters t) :
    t.beta p.1 = p.2 := by
  obtain ⟨a⟩ := Layout.nonempty_arrangement h
  unfold RegressionTable.beta
  rw [(Table.lookup_eq_some_iff a.parameters_nodup).mpr hp]
  rfl

theorem sums_of_arrange {t : RegressionTable} {s : Scope} {l : Layout}
    (h : Layout.arrange t.declarations s = .ok l) {v : Vectorizer} (hv : v.spans = l.spans)
    {name : Option String} {kind : LinearKind} {classes : Classes} :
    Scorer.Sums ⟨name, .vector v, kind.classifier
      ⟨l.slots.coefficients (Table.ofList (tableParameters t)), 0.0, classes, some l.slots⟩⟩
      t.declarations s t.beta := by
  obtain ⟨a⟩ := Layout.nonempty_arrangement h
  refine ⟨v, _, rfl, classifier_eq kind _, fun r w hw => a.score_eq (fun p => ?_) hv hw⟩
  rw [Table.find?_ofList a.parameters_nodup]
  rfl

/-- Whatever the compilers of linear models accept and whatever record can be vectorized, the score is the sum of the
model's terms. The coefficients are those that the model gives its parameters. -/
theorem linear_score (d : Document) :
    (∀ m s, generalRegression d m = .ok s →
      (∀ c ∈ m.coefficientCells, m.beta c.parameter = c.beta) ∧
      (∀ p, p ∉ m.coefficientCells.map (·.parameter) → m.beta p = 0.0) ∧
      s.Sums m.declarations (scope d m.schema m.transformations) m.beta) ∧
    (∀ m s, regression d m = .ok s → ∃ table rest, m.tables = [table, rest] ∧
      (∀ t ∈ table.numericTerms, table.beta (numericCell t).parameter = t.coefficient) ∧
      (∀ t ∈ table.categoryTerms, table.beta (categoryCell t).parameter = t.coefficient) ∧
      table.beta interceptParameter = table.intercept ∧
      s.Sums table.declarations (scope d m.schema m.transformations) table.beta) := by
  constructor
  · intro m s h
    refine ⟨fun c hc => ?_, fun p hp => beta_of_notMem hp, sums_of_generalRegression h⟩
    exact beta_of_mem (nodup_coefficients h) hc
  · intro m s h
    obtain ⟨kind, table, rest, layout, classes, v, htables, hlayout, hv, rfl⟩ := exists_of_regression h
    refine ⟨table, rest, htables, fun t ht => ?_, fun t ht => ?_, ?_, sums_of_arrange hlayout hv⟩
    · refine beta_of_parameter (p := ((numericCell t).parameter, t.coefficient)) hlayout ?_
      unfold tableParameters tableCells
      simp only [List.map_append, List.map_map, List.mem_append, List.mem_map]
      exact Or.inl (Or.inl ⟨t, ht, rfl⟩)
    · refine beta_of_parameter (p := ((categoryCell t).parameter, t.coefficient)) hlayout ?_
      unfold tableParameters tableCells
      simp only [List.map_append, List.map_map, List.mem_append, List.mem_map]
      exact Or.inl (Or.inr ⟨t, ht, rfl⟩)
    · refine beta_of_parameter (p := (interceptParameter, table.intercept)) hlayout ?_
      exact List.mem_append_right _ (List.mem_singleton_self _)

/-! A logistic regression on an age and a grade, described in both ways, and a record with three grades. -/

def gradeSchema : Spec.MiningSchema := ⟨[.active "age", .active "grade", .target "y"]⟩

def gradeGeneralRegression : GeneralRegression where
  name := none
  function := .classification
  type := .multinomialLogistic
  distribution := none
  link := none
  schema := gradeSchema
  transformations := ⟨[]⟩
  parameters := [⟨"p0", none⟩, ⟨"p1", none⟩, ⟨"p2", none⟩]
  factors := ["grade"]
  covariates := ["age"]
  predictorCells := [⟨none, "age", "p1", none⟩, ⟨some "B", "grade", "p2", none⟩]
  coefficientCells := [⟨some "1", "p0", 1.0, none⟩, ⟨some "1", "p1", 0.5, none⟩]

def gradeRegression : Spec.Regression where
  name := none
  function := .classification
  normalization := .logit
  schema := gradeSchema
  transformations := ⟨[]⟩
  tables := [⟨1.0, some "1", [⟨"age", 1, 0.5⟩], [⟨"grade", "B", 2.0⟩]⟩, ⟨0.0, some "0", [], []⟩]

def gradeDocument : Document where
  version := none
  dictionary := ⟨[.continuous "age" .double, .categorical "grade" .string ["A", "B", "C"],
    .categorical "y" .integer ["0", "1"]]⟩
  transformations := ⟨[]⟩
  models := [.generalRegression gradeGeneralRegression, .regression gradeRegression]

def gradeRecord : Record := fun field =>
  if field = "age" then [.integer 40]
  else if field = "grade" then [.string "B", .string "A", .string "B"]
  else []

def reads (c : Scorer) (r : Record) : Bool :=
  match c.pipeline with
  | .vector v => (v.spans.mapM (Span.entries · r)).isOk
  | _ => false

def Scores (c : Scorer) (r : Record) (terms : List Float) : Prop :=
  ∃ v m w, c.pipeline = .vector v ∧ (c.classifier = .logistic m ∨ c.classifier = .margin m) ∧
    v.vectorize r = .ok w ∧ m.score w = .ok (Arithmetic.sum terms + 0.0)

theorem scores_of_sums {c : Scorer} {d : Declarations} {s : Scope} {beta : String → Float} {r : Record}
    {terms : List Float} (h : c.Sums d s beta)
    (hv : ∀ v, c.pipeline = .vector v → ∀ span ∈ v.spans, span.WellFormed) (hr : reads c r = true)
    (hterms : (d.terms s beta r).toOption = some terms) : Scores c r terms := by
  obtain ⟨v, m, hpipeline, hm, hsum⟩ := h
  unfold reads at hr
  rw [hpipeline] at hr
  obtain ⟨w, hw⟩ := Vectorizer.exists_of_entries (hv v hpipeline) hr
  obtain ⟨terms', hterms', hscore⟩ := hsum r w hw
  rw [hterms'] at hterms
  cases hterms
  exact ⟨v, m, w, hpipeline, hm, hw, hscore⟩

theorem linear_score_grade :
    (∃ c, generalRegression gradeDocument gradeGeneralRegression = .ok c ∧
      Scores c gradeRecord [20.0, 0.0, 0.0, 1.0]) ∧
    (∃ c, regression gradeDocument gradeRegression = .ok c ∧
      Scores c gradeRecord [20.0, 0.0, 2.0, 1.0]) := by
  constructor
  · have hread : (generalRegression gradeDocument gradeGeneralRegression).toOption.map
        (reads · gradeRecord) = some true := by decide +kernel
    obtain ⟨c, hc, hread⟩ := Outcome.exists_of_toOption_map hread
    have hsums := ((linear_score gradeDocument).1 gradeGeneralRegression c hc).2.2
    refine ⟨c, hc, scores_of_sums hsums ?_ hread (by decide +kernel)⟩
    obtain ⟨layout, betas, classes, v, hlayout, -, hv, rfl⟩ := exists_of_generalRegression hc
    obtain ⟨a⟩ := Layout.nonempty_arrangement hlayout
    intro v' hv'
    cases hv'
    exact hv ▸ a.wellFormed
  · have hread : (regression gradeDocument gradeRegression).toOption.map
        (reads · gradeRecord) = some true := by decide +kernel
    obtain ⟨c, hc, hread⟩ := Outcome.exists_of_toOption_map hread
    obtain ⟨table, rest, htables, -, -, -, hsums⟩ := (linear_score gradeDocument).2 gradeRegression c hc
    cases htables
    refine ⟨c, hc, scores_of_sums hsums ?_ hread (by decide +kernel)⟩
    obtain ⟨kind, table', rest', layout, classes, v, -, hlayout, hv, rfl⟩ := exists_of_regression hc
    obtain ⟨a⟩ := Layout.nonempty_arrangement hlayout
    intro v' hv'
    cases hv'
    exact hv ▸ a.wellFormed

end Compile

end Scoring
