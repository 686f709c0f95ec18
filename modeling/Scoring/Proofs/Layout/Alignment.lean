import Scoring.Proofs.Field.Scope
import Scoring.Proofs.Layout.Entries
import Scoring.Proofs.Layout.Placement
import Scoring.Proofs.Layout.Failures

/-!
# Alignment — parameters and spans agree on every index

Coefficients meet feature vectors only through integer indices, so a layout that is off by one scores every
record wrongly and says nothing. `arrange_aligned` states all that ties the indices to the declarations: where
the spans lie, which slot belongs to which parameter, and that neither the check of the sizes nor the vectorizer
ever refuses a layout.
-/

namespace Scoring

/-- The index of a cell's parameter, given the span of the cell's field. -/
def Span.index? (span : Span) (c : Cell) : Option Nat :=
  match span.kind with
  | .continuous => some span.offset
  | .categorical => (c.category.bind span.categoryPosition?).map (span.offset + ·)
  | .intercept => none

/-! ## 1. The block of a field -/

namespace Block

theorem OfField.name_eq {s : Scope} {e : String × List Cell} {b : Block} (h : OfField s e b) :
    b.span.name = e.1 := by
  obtain ⟨f, hf, hspan, -⟩ := h
  rw [Span.name_of_ofField hspan, Scope.name_of_resolve hf]

/-- Every cell of a field has its slot. -/
theorem OfField.slot_of_cell {s : Scope} {e : String × List Cell} {b : Block} (h : OfField s e b)
    {c : Cell} (hc : c ∈ e.2) :
    ∃ k, b.span.index? c = some (b.span.offset + k) ∧ b.slots[k]? = some (some c.parameter) := by
  obtain ⟨f, -, hspan, hslots⟩ := h
  -- a continuous field has one slot, a categorical one a slot for each category
  rcases Span.ofField_eq_ok.mp hspan with ⟨-, -, hs⟩ | ⟨-, -, hk, hs⟩
  · rw [hs] at hslots ⊢
    obtain ⟨c', hcells, hb⟩ := Layout.slotsOf_continuous hslots
    rw [hcells, List.mem_singleton] at hc
    subst hc
    exact ⟨0, rfl, by rw [hb]; rfl⟩
  · rw [hs] at hslots ⊢
    obtain ⟨v, i, hv, hi, hslot⟩ := (Layout.slotsOf_categorical hk hslots).2 c hc
    refine ⟨i, ?_, hslot⟩
    show (c.category.bind _).map _ = _
    rw [hv, Option.bind_some]
    show (Span.position? f _).map _ = _
    rw [hi, Option.map_some]

/-- Every slot that is taken belongs to a cell of the field. -/
theorem OfField.cell_of_slot {s : Scope} {e : String × List Cell} {b : Block} (h : OfField s e b)
    {k : Nat} {p : String} (hp : b.slots[k]? = some (some p)) :
    ∃ c ∈ e.2, c.parameter = p ∧ b.span.index? c = some (b.span.offset + k) := by
  obtain ⟨f, hf, hspan, hslots⟩ := h
  rcases Span.ofField_eq_ok.mp hspan with ⟨-, -, hs⟩ | ⟨-, -, hk, hs⟩
  · rw [hs] at hslots ⊢
    obtain ⟨c, hcells, hb⟩ := Layout.slotsOf_continuous hslots
    rw [hb] at hp
    obtain ⟨hk, hparameter⟩ := eq_of_getElem?_singleton hp
    subst hk
    refine ⟨c, ?_, Option.some.inj hparameter, rfl⟩
    rw [hcells]
    exact List.mem_singleton_self c
  · rw [hs] at hslots ⊢
    obtain ⟨hb, hall⟩ := Layout.slotsOf_categorical hk hslots
    -- the slot is that of the first cell which names the category
    rw [hb] at hp
    unfold Layout.claimed at hp
    rw [List.getElem?_map] at hp
    cases hcat : f.categories[k]? with
    | none => simp [hcat] at hp
    | some category =>
      rw [hcat, Option.map_some, Option.some.injEq, Option.map_eq_some_iff] at hp
      obtain ⟨c, hfind, hparameter⟩ := hp
      have hc := List.mem_of_find?_eq_some hfind
      have hnames : c.names f category = true := by simpa using List.find?_some hfind
      obtain ⟨v, i, hv, hi, -⟩ := hall c hc
      have hik := (Layout.names_iff_position hk hv hi hcat).mp hnames
      subst hik
      refine ⟨c, hc, hparameter, ?_⟩
      show (c.category.bind _).map _ = _
      rw [hv, Option.bind_some]
      show (Span.position? f _).map _ = _
      rw [hi, Option.map_some]

/-- Only categories may be without a parameter. -/
theorem OfField.kind_of_free {s : Scope} {e : String × List Cell} {b : Block} (h : OfField s e b)
    {k : Nat} (hk : b.slots[k]? = some none) : b.span.kind = .categorical := by
  obtain ⟨f, -, hspan, hslots⟩ := h
  rcases Span.ofField_eq_ok.mp hspan with ⟨-, -, hs⟩ | ⟨-, -, -, hs⟩
  · rw [hs] at hslots
    obtain ⟨c, -, hb⟩ := Layout.slotsOf_continuous hslots
    rw [hb] at hk
    cases (eq_of_getElem?_singleton hk).2
  · rw [hs]
    rfl

end Block

namespace Layout

namespace Arrangement

variable {d : Declarations} {s : Scope} {l : Layout}

/-! ## 2. Spans by name -/

theorem names_fields (a : Arrangement d s l) :
    a.fields.map (·.span.name) = (cellsByField d.cells).names := by
  have h := a.ofFields
  unfold Table.names
  generalize a.fields = bs at h ⊢
  generalize (cellsByField d.cells).entries = es at h ⊢
  induction h with
  | nil => rfl
  | cons hb _ ih => rw [List.map_cons, List.map_cons, ih, hb.name_eq]

theorem encodings_intercepts (a : Arrangement d s l) :
    a.intercepts.map (·.span.encoding) = d.unclaimed.map .intercept := by
  have h := a.ofIntercepts
  generalize a.intercepts = bs at h ⊢
  generalize d.unclaimed = ps at h ⊢
  induction h with
  | nil => rfl
  | cons hb _ ih => rw [List.map_cons, List.map_cons, ih, hb.1]

theorem unclaimed_nodup (a : Arrangement d s l) : d.unclaimed.Nodup :=
  a.parameters_nodup.filter _

/-- Blocks of fields with one name are one block. -/
theorem eq_of_name_eq (a : Arrangement d s l) {b b' : Block} (hb : b ∈ a.fields) (hb' : b' ∈ a.fields)
    (h : b.span.name = b'.span.name) : b = b' := by
  -- the blocks have the names of a table, in which no name comes twice
  have hnodup : (a.fields.map (·.span.name)).Nodup := by
    rw [a.names_fields]
    exact Table.names_nodup _
  exact List.inj_on_of_nodup_map hnodup hb hb' h

/-- Blocks of one intercept are one block. -/
theorem eq_of_encoding_eq (a : Arrangement d s l) {b b' : Block} (hb : b ∈ a.intercepts)
    (hb' : b' ∈ a.intercepts) (h : b.span.encoding = b'.span.encoding) : b = b' := by
  have hnodup : (a.intercepts.map (·.span.encoding)).Nodup := by
    rw [a.encodings_intercepts]
    refine a.unclaimed_nodup.map fun p q hpq => ?_
    simpa using hpq
  exact List.inj_on_of_nodup_map hnodup hb hb' h

/-- The block of a cell's field. -/
theorem exists_block (a : Arrangement d s l) {c : Cell} (hc : c ∈ d.cells) :
    ∃ b ∈ a.fields, b.span.name = c.field ∧ ∃ e, Block.OfField s e b ∧ c ∈ e.2 := by
  have hname : c.field ∈ (cellsByField d.cells).names :=
    mem_names_cellsByField.mpr (List.mem_map_of_mem hc)
  obtain ⟨e, he, hfield⟩ := List.mem_map.mp hname
  obtain ⟨b, hb, hof⟩ := Outcome.exists_right_of_forall₂ a.ofFields he
  refine ⟨b, hb, hof.name_eq.trans hfield, e, hof, ?_⟩
  rw [eq_filter_of_mem_cellsByField he, hfield]
  exact List.mem_filter.mpr ⟨hc, by simp⟩

/-! ## 3. Slots -/

theorem slots_eq (a : Arrangement d s l) : l.slots = (ofBlocks (a.fields ++ a.intercepts)).slots :=
  congrArg Layout.slots a.layout_eq

theorem mem_spans (a : Arrangement d s l) {b : Block} (hb : b ∈ a.fields ++ a.intercepts) :
    b.span ∈ l.spans := by
  rw [a.layout_eq]
  exact List.mem_map_of_mem hb

/-- The parameter of a cell has its slot. -/
theorem slot_of_cell (a : Arrangement d s l) {c : Cell} (hc : c ∈ d.cells) :
    ∃ b ∈ a.fields, b.span.name = c.field ∧
      ∃ i, b.span.index? c = some i ∧ l.slots[i]? = some (some c.parameter) := by
  obtain ⟨b, hb, hname, e, hof, hce⟩ := a.exists_block hc
  obtain ⟨k, hindex, hslot⟩ := hof.slot_of_cell hce
  refine ⟨b, hb, hname, b.span.offset + k, hindex, ?_⟩
  rw [a.slots_eq]
  exact a.inRow.slot_of_mem (List.mem_append_left _ hb) hslot

/-- A parameter without a cell has the slot of its intercept. -/
theorem slot_of_unclaimed (a : Arrangement d s l) {p : String} (hp : p ∈ d.unclaimed) :
    ∃ b ∈ a.intercepts, b.span.encoding = .intercept p ∧ l.slots[b.span.offset]? = some (some p) := by
  obtain ⟨b, hb, hencoding, hslots⟩ := Outcome.exists_right_of_forall₂ a.ofIntercepts hp
  refine ⟨b, hb, hencoding, ?_⟩
  have hslot : b.slots[0]? = some (some p) := by
    rw [hslots]
    rfl
  rw [a.slots_eq]
  exact a.inRow.slot_of_mem (List.mem_append_right _ hb) hslot

/-- A slot that is taken is that of a cell, or that of an intercept. -/
theorem cell_of_slot (a : Arrangement d s l) {i : Nat} {p : String}
    (hi : l.slots[i]? = some (some p)) :
    (∃ c ∈ d.cells, c.parameter = p ∧ ∃ b ∈ a.fields, b.span.name = c.field ∧
      b.span.index? c = some i) ∨
    (p ∈ d.unclaimed ∧ ∃ b ∈ a.intercepts, b.span.encoding = .intercept p ∧ b.span.offset = i) := by
  rw [a.slots_eq, a.inRow.getElem?_slots_iff] at hi
  obtain ⟨b, hb, k, hslot, hk⟩ := hi
  rw [Nat.zero_add] at hk
  rcases List.mem_append.mp hb with hb | hb
  · obtain ⟨e, he, hof⟩ := Outcome.exists_left_of_forall₂ a.ofFields hb
    obtain ⟨c, hce, hp, hindex⟩ := hof.cell_of_slot hslot
    rw [eq_filter_of_mem_cellsByField he] at hce
    obtain ⟨hc, hfield⟩ := List.mem_filter.mp hce
    refine Or.inl ⟨c, hc, hp, b, hb, ?_, hk ▸ hindex⟩
    rw [hof.name_eq]
    exact (beq_iff_eq.mp hfield).symm
  · obtain ⟨q, hq, hencoding, hslots⟩ := Outcome.exists_left_of_forall₂ a.ofIntercepts hb
    rw [hslots] at hslot
    obtain ⟨hzero, hparameter⟩ := eq_of_getElem?_singleton hslot
    cases hparameter
    exact Or.inr ⟨hq, b, hb, hencoding, by omega⟩

/-- Every declared parameter has a slot. -/
theorem exists_slot (a : Arrangement d s l) {p : String} (hp : p ∈ d.parameters) :
    ∃ i : Nat, l.slots[i]? = some (some p) := by
  -- a parameter is tied to a field, or else it is an intercept
  by_cases hc : p ∈ d.cells.map (·.parameter)
  · obtain ⟨c, hmem, rfl⟩ := List.mem_map.mp hc
    obtain ⟨b, -, -, i, -, hi⟩ := a.slot_of_cell hmem
    exact ⟨i, hi⟩
  · obtain ⟨b, -, -, hi⟩ := a.slot_of_unclaimed (Declarations.mem_unclaimed.mpr ⟨hp, hc⟩)
    exact ⟨b.span.offset, hi⟩

/-- No parameter has two slots. -/
theorem slot_unique (a : Arrangement d s l) {p : String} {i j : Nat}
    (hi : l.slots[i]? = some (some p)) (hj : l.slots[j]? = some (some p)) : i = j := by
  rcases a.cell_of_slot hi with ⟨c, hc, rfl, b, hb, hname, hindex⟩ | ⟨hp, b, hb, hencoding, hoff⟩
  · rcases a.cell_of_slot hj with ⟨c', hc', hcc, b', hb', hname', hindex'⟩ | ⟨hp, -⟩
    -- one parameter is in one cell, whose field has one block
    · have hsame : c' = c := List.inj_on_of_nodup_map a.cells_nodup hc' hc hcc
      subst hsame
      have hblock := a.eq_of_name_eq hb hb' (hname.trans hname'.symm)
      subst hblock
      rw [hindex] at hindex'
      exact Option.some.inj hindex'
    -- no parameter is both tied to a field and an intercept
    · exact absurd (List.mem_map_of_mem hc) (Declarations.mem_unclaimed.mp hp).2
  · rcases a.cell_of_slot hj with ⟨c, hc, rfl, -⟩ | ⟨-, b', hb', hencoding', hoff'⟩
    · exact absurd (List.mem_map_of_mem hc) (Declarations.mem_unclaimed.mp hp).2
    -- each parameter without a cell has one intercept
    · have hblock := a.eq_of_encoding_eq hb hb' (hencoding.trans hencoding'.symm)
      subst hblock
      exact hoff.symm.trans hoff'

theorem declared_of_slot (a : Arrangement d s l) {i : Nat} {p : String}
    (hi : l.slots[i]? = some (some p)) : p ∈ d.parameters := by
  rcases a.cell_of_slot hi with ⟨c, hc, rfl, -⟩ | ⟨hp, -⟩
  · exact a.cells_declared c hc
  · exact (Declarations.mem_unclaimed.mp hp).1

/-- Only the categories of a field may be without a parameter. -/
theorem kind_of_free (a : Arrangement d s l) {i : Nat} (hi : l.slots[i]? = some none) :
    ∃ span ∈ l.spans, span.kind = .categorical ∧ span.offset ≤ i ∧ i < span.stop := by
  rw [a.slots_eq, a.inRow.getElem?_slots_iff] at hi
  obtain ⟨b, hb, k, hslot, hk⟩ := hi
  have hlength := a.inRow.length_of_mem hb
  have hlt := (List.getElem?_eq_some_iff.mp hslot).1
  refine ⟨b.span, a.mem_spans hb, ?_, by omega, by unfold Span.stop; omega⟩
  rcases List.mem_append.mp hb with hb | hb
  · obtain ⟨e, -, hof⟩ := Outcome.exists_left_of_forall₂ a.ofFields hb
    exact hof.kind_of_free hslot
  · obtain ⟨q, -, -, hslots⟩ := Outcome.exists_left_of_forall₂ a.ofIntercepts hb
    rw [hslots] at hslot
    cases (eq_of_getElem?_singleton hslot).2

/-- The spans of fields are those that the fields give at their places. -/
theorem ofField_of_mem (a : Arrangement d s l) {b : Block} (hb : b ∈ a.fields) :
    ∃ f, s.resolve b.span.name = .ok f ∧ Span.ofField f b.span.offset = .ok b.span := by
  obtain ⟨e, -, hof⟩ := Outcome.exists_left_of_forall₂ a.ofFields hb
  have hname := hof.name_eq
  obtain ⟨f, hf, hspan, -⟩ := hof
  exact ⟨f, hname ▸ hf, hspan⟩

theorem wellFormed (a : Arrangement d s l) : ∀ span ∈ l.spans, span.WellFormed := by
  intro span hspan
  rw [a.layout_eq] at hspan
  obtain ⟨b, hb, rfl⟩ := List.mem_map.mp hspan
  rcases List.mem_append.mp hb with hb | hb
  · obtain ⟨f, -, hf⟩ := a.ofField_of_mem hb
    exact Span.wellFormed_of_ofField hf
  · obtain ⟨p, -, hencoding, -⟩ := Outcome.exists_left_of_forall₂ a.ofIntercepts hb
    unfold Span.WellFormed
    rw [hencoding]
    trivial

end Arrangement

/-! ## 4. Coefficients -/

/-- The coefficient of an index is that of its parameter. -/
theorem getElem?_coefficients (slots : Slots) (betas : Table Float) {i : Nat} (hi : i < slots.length) :
    (slots.coefficients betas)[i]? = some (match slots.parameter? i with
      | some p => (betas.find? p).getD 0.0
      | none => 0.0) := by
  unfold Slots.coefficients Slots.coefficient Slots.parameter?
  rw [List.getElem?_map, List.getElem?_eq_getElem hi]
  cases slots[i] <;> rfl

end Layout

/-! ## 5. Alignment -/

/-- All that ties the indices of a layout to the declarations that it is made from. -/
structure Layout.Aligned (d : Declarations) (s : Scope) (l : Layout) : Prop where
  contiguous : Span.Contiguous 0 l.spans
  length_slots : l.slots.length = (l.spans.map Span.size).sum
  length_coefficients : ∀ betas, (l.slots.coefficients betas).length = l.slots.length
  -- one span for each field with cells, by name, then one for each parameter without a cell
  spans : ∃ fields intercepts, l.spans = fields ++ intercepts ∧
    (fields.map Span.name).Pairwise (· < ·) ∧
    (∀ n, n ∈ fields.map Span.name ↔ ∃ c ∈ d.cells, c.field = n) ∧
    (∀ span ∈ fields, ∃ f, s.resolve span.name = .ok f ∧ Span.ofField f span.offset = .ok span) ∧
    intercepts.map Span.encoding =
      (d.parameters.filter fun p => p ∉ d.cells.map (·.parameter)).map .intercept
  parameter : ∀ p ∈ d.parameters, ∃! i : Nat, l.slots[i]? = some (some p)
  declared : ∀ (i : Nat) p, l.slots[i]? = some (some p) → p ∈ d.parameters
  cell : ∀ c ∈ d.cells, ∃ span ∈ l.spans, ∃ f, ∃ i : Nat, s.resolve c.field = .ok f ∧
    span.field? = some f ∧ span.index? c = some i ∧ l.slots[i]? = some (some c.parameter)
  intercept : ∀ span ∈ l.spans, ∀ p, span.encoding = .intercept p →
    l.slots[span.offset]? = some (some p)
  free : ∀ i : Nat, l.slots[i]? = some none →
    ∃ span ∈ l.spans, span.kind = .categorical ∧ span.offset ≤ i ∧ i < span.stop
  coefficient : ∀ betas, ∀ i : Nat, i < l.slots.length →
    (l.slots.coefficients betas)[i]? = some (match l.slots.parameter? i with
      | some p => (betas.find? p).getD 0.0
      | none => 0.0)
  vectorizer : ∃ v, Vectorizer.ofSpans l.spans = .ok v ∧ v.spans = l.spans ∧ v.size = l.slots.length

namespace Layout

/-- Contiguous spans make a vectorizer. -/
theorem exists_vectorizer {spans : List Span} (h : Span.Contiguous 0 spans) :
    ∃ v, Vectorizer.ofSpans spans = .ok v ∧ v.spans = spans := by
  have hgap := Span.gap?_eq_none_iff.mpr h
  refine ⟨⟨spans, hgap⟩, ?_, rfl⟩
  unfold Vectorizer.ofSpans
  split
  · rfl
  · rename_i hsome
    rw [hgap] at hsome
    cases hsome

namespace Arrangement

variable {d : Declarations} {s : Scope} {l : Layout}

theorem contiguous (a : Arrangement d s l) : Span.Contiguous 0 l.spans := by
  rw [a.layout_eq]
  exact a.inRow.contiguous

theorem length_slots (a : Arrangement d s l) : l.slots.length = (l.spans.map Span.size).sum := by
  rw [a.layout_eq]
  exact a.inRow.length_slots

theorem spans_eq (a : Arrangement d s l) :
    l.spans = a.fields.map (·.span) ++ a.intercepts.map (·.span) := by
  have := congrArg Layout.spans a.layout_eq
  rwa [Block.spans_ofBlocks, List.map_append] at this

theorem mem_names_fields (a : Arrangement d s l) {n : String} :
    n ∈ a.fields.map (·.span.name) ↔ ∃ c ∈ d.cells, c.field = n := by
  rw [a.names_fields, mem_names_cellsByField, List.mem_map]

theorem aligned (a : Arrangement d s l) : Aligned d s l where
  contiguous := a.contiguous
  length_slots := a.length_slots
  length_coefficients betas := List.length_map _
  spans := by
    refine ⟨a.fields.map (·.span), a.intercepts.map (·.span), a.spans_eq, ?_, ?_, ?_, ?_⟩
    · rw [List.map_map]
      show (a.fields.map (·.span.name)).Pairwise (· < ·)
      rw [a.names_fields]
      exact Table.names_pairwise _
    · intro n
      rw [List.map_map]
      exact a.mem_names_fields
    · intro span hspan
      obtain ⟨b, hb, rfl⟩ := List.mem_map.mp hspan
      exact a.ofField_of_mem hb
    · rw [List.map_map]
      exact a.encodings_intercepts
  parameter p hp := by
    obtain ⟨i, hi⟩ := a.exists_slot hp
    exact ⟨i, hi, fun j hj => a.slot_unique hj hi⟩
  declared i p hi := a.declared_of_slot hi
  cell c hc := by
    obtain ⟨b, hb, hname, i, hindex, hslot⟩ := a.slot_of_cell hc
    obtain ⟨f, hf, hspan⟩ := a.ofField_of_mem hb
    refine ⟨b.span, a.mem_spans (List.mem_append_left _ hb), f, i, ?_, ?_, hindex, hslot⟩
    · rw [← hname]
      exact hf
    · exact Span.field?_of_ofField hspan
  intercept span hspan p hp := by
    rw [a.layout_eq] at hspan
    obtain ⟨b, hb, rfl⟩ := List.mem_map.mp hspan
    rcases List.mem_append.mp hb with hb | hb
    -- the span of a field is no intercept
    · obtain ⟨f, -, hf⟩ := a.ofField_of_mem hb
      have := Span.field?_of_ofField hf
      unfold Span.field? at this
      rw [hp] at this
      cases this
    · obtain ⟨q, hq, hencoding, -⟩ := Outcome.exists_left_of_forall₂ a.ofIntercepts hb
      obtain ⟨b', hb', hencoding', hslot⟩ := a.slot_of_unclaimed hq
      have hsame := a.eq_of_encoding_eq hb hb' (hencoding.trans hencoding'.symm)
      subst hsame
      rw [hp] at hencoding
      cases hencoding
      exact hslot
  free i hi := a.kind_of_free hi
  coefficient betas i hi := getElem?_coefficients l.slots betas hi
  vectorizer := by
    obtain ⟨v, hv, hspans⟩ := exists_vectorizer a.contiguous
    exact ⟨v, hv, hspans, by rw [v.size_eq_sum, hspans, a.length_slots]⟩

end Arrangement

/-- Whatever is declared and resolved, a layout lines up with its declarations, and neither the check of its sizes
nor the vectorizer refuses it. -/
theorem arrange_aligned (d : Declarations) (s : Scope) :
    (∀ n m, arrange d s ≠ .error (.malformed (.layoutSize n m))) ∧
      ∀ l, arrange d s = .ok l → Aligned d s l := by
  constructor
  · intro n m h
    have := ofLayout_of_arrange h
    cases this
  · intro l h
    obtain ⟨a⟩ := nonempty_arrangement h
    exact a.aligned

def gradeDeclarations : Declarations where
  parameters := ["p0", "p1", "p2", "p3", "p4"]
  cells := [⟨"hours", none, "p1"⟩, ⟨"grade", some "B", "p2"⟩, ⟨"grade", some "A", "p3"⟩,
    ⟨"age", none, "p4"⟩]

def gradeScope : Scope where
  dictionary := ⟨[.continuous "age" .double, .continuous "hours" .double,
    .categorical "grade" .string ["A", "B", "C"]]⟩
  derived := []
  schema := none

/-- Grade C has no parameter, and its slot stays free. -/
theorem arrange_aligned_grade : ∃ l, arrange gradeDeclarations gradeScope = .ok l ∧
    l.slots = [some "p4", some "p3", some "p2", none, some "p1", some "p0"] ∧
    Aligned gradeDeclarations gradeScope l := by
  have hslots : (arrange gradeDeclarations gradeScope).toOption.map Layout.slots =
      some [some "p4", some "p3", some "p2", none, some "p1", some "p0"] := by decide +kernel
  obtain ⟨l, hl, hslots⟩ := Outcome.exists_of_toOption_map hslots
  exact ⟨l, hl, hslots, (arrange_aligned gradeDeclarations gradeScope).2 l hl⟩

end Layout

end Scoring
