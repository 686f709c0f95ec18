import Scoring.Proofs.Layout.Row
import Scoring.Proofs.Layout.Span
import Scoring.Proofs.Table

/-!
# Placement — the blocks that declarations are laid out in

One lemma for each step of laying out: the checks of the declarations, the grouping of cells by field, the slots
of a field's span and the two rows of blocks. `nonempty_arrangement` puts them together; it is all that is used of
`Layout.arrange` from here on.
-/

namespace Scoring

def Declarations.unclaimed (d : Declarations) : List String :=
  d.parameters.filter fun p => p ∉ d.cells.map (·.parameter)

theorem Declarations.mem_unclaimed {d : Declarations} {p : String} :
    p ∈ d.unclaimed ↔ p ∈ d.parameters ∧ p ∉ d.cells.map (·.parameter) := by
  unfold unclaimed
  rw [List.mem_filter, decide_eq_true_eq]

/-- Categories are the same when their keys are. -/
def Cell.names (c : Cell) (f : Field) (category : String) : Bool :=
  c.category.any fun v =>
    (Scalar.string v).key f.raw.dataType == (Scalar.string category).key f.raw.dataType

namespace Layout

/-! ## 1. Checks -/

theorem checkParameters_eq_ok {seen ps : List String} :
    checkParameters seen ps = .ok () ↔ ps.Nodup ∧ ∀ p ∈ ps, p ∉ seen := by
  -- what was seen grows along the list, so the statement speaks of any such list
  induction ps generalizing seen with
  | nil => simp [checkParameters]
  | cons p rest ih =>
    unfold checkParameters
    by_cases h : p ∈ seen
    · simp [h]
    · rw [if_neg h, ih, List.nodup_cons]
      simp only [List.mem_cons, not_or, forall_eq_or_imp]
      constructor
      · rintro ⟨hd, hrest⟩
        exact ⟨⟨fun hp => (hrest p hp).1 rfl, hd⟩, h, fun q hq => (hrest q hq).2⟩
      · rintro ⟨⟨hp, hd⟩, -, hrest⟩
        exact ⟨hd, fun q hq => ⟨fun heq => hp (heq ▸ hq), hrest q hq⟩⟩

theorem checkCells_eq_ok {declared claimed : List String} {cells : List Cell} :
    checkCells declared claimed cells = .ok () ↔
      (∀ c ∈ cells, c.parameter ∈ declared) ∧ (cells.map (·.parameter)).Nodup ∧
        ∀ c ∈ cells, c.parameter ∉ claimed := by
  induction cells generalizing claimed with
  | nil => simp [checkCells]
  | cons c rest ih =>
    unfold checkCells
    by_cases hd : c.parameter ∈ declared
    · by_cases hc : c.parameter ∈ claimed
      · simp [hd, hc]
      · rw [if_neg (not_not.mpr hd), if_neg hc, ih, List.map_cons, List.nodup_cons]
        simp only [List.mem_cons, not_or, forall_eq_or_imp, List.mem_map, not_exists, not_and]
        constructor
        · rintro ⟨hdecl, hnd, hrest⟩
          exact ⟨⟨hd, hdecl⟩, ⟨fun q hq => (hrest q hq).1, hnd⟩, hc, fun q hq => (hrest q hq).2⟩
        · rintro ⟨⟨-, hdecl⟩, ⟨hfresh, hnd⟩, -, hrest⟩
          exact ⟨hdecl, hnd, fun q hq => ⟨hfresh q hq, hrest q hq⟩⟩
    · simp [hd]

/-! ## 2. Cells by field -/

/-- Grouping adds the fields of the cells. -/
theorem mem_names_group {cells : List Cell} {t : Table (List Cell)} {n : String} :
    n ∈ (cells.foldl (fun t c => t.alter c.field fun cs => cs.getD [] ++ [c]) t).names ↔
      n ∈ cells.map (·.field) ∨ n ∈ t.names := by
  induction cells generalizing t with
  | nil => simp
  | cons c rest ih =>
    rw [List.foldl_cons, ih, Table.mem_names_alter, List.map_cons, List.mem_cons]
    tauto

theorem find?_group {cells : List Cell} {t : Table (List Cell)} {n : String} :
    ((cells.foldl (fun t c => t.alter c.field fun cs => cs.getD [] ++ [c]) t).find? n).getD [] =
      (t.find? n).getD [] ++ cells.filter (·.field == n) := by
  induction cells generalizing t with
  | nil => simp
  | cons c rest ih =>
    rw [List.foldl_cons, ih]
    -- the cell goes behind those of its own field and leaves the other fields alone
    by_cases h : c.field = n
    · subst h
      rw [Table.find?_alter_self, List.filter_cons_of_pos (by simp), Option.getD_some,
        List.append_assoc, List.singleton_append]
    · rw [Table.find?_alter_of_ne _ _ (Ne.symm h), List.filter_cons_of_neg (by simpa using h)]

/-- The fields that have cells are the fields of the cells. -/
theorem mem_names_cellsByField {cells : List Cell} {n : String} :
    n ∈ (cellsByField cells).names ↔ n ∈ cells.map (·.field) := by
  unfold cellsByField
  rw [mem_names_group]
  simp [Table.empty, Table.names]

/-- The cells of a field keep the order in which they are declared. -/
theorem eq_filter_of_mem_cellsByField {cells : List Cell} {e : String × List Cell}
    (h : e ∈ (cellsByField cells).entries) : e.2 = cells.filter (·.field == e.1) := by
  have hfind := Table.find?_eq_some_iff.mpr h
  have hgroup := @find?_group cells Table.empty e.1
  unfold cellsByField at hfind
  rw [hfind] at hgroup
  simpa using hgroup

/-! ## 3. Slots of a field -/

/-- A cell claims the free slot of the category that it names. -/
theorem claim_eq_ok {field : String} {span : Span} {slots slots' : Slots} {c : Cell} :
    claim field span slots c = .ok slots' ↔
      ∃ v i, c.category = some v ∧ span.categoryPosition? v = some i ∧
        slots.parameter? i = none ∧ slots' = slots.set i (some c.parameter) := by
  unfold claim
  cases hc : c.category with
  | none => simp
  | some v =>
    cases hp : span.categoryPosition? v with
    | none => simp [hp]
    | some i =>
      cases hs : slots.parameter? i with
      | some p => simp [hp, hs]
      | none =>
        simp only [hs, Option.isSome_none, Bool.false_eq_true, if_false, Except.ok.injEq,
          Option.some.injEq, exists_and_left, exists_eq_left', hp, true_and]
        exact eq_comm

/-- The slots of a categorical field when the given cells have claimed theirs. -/
def claimed (f : Field) (cells : List Cell) : Slots :=
  f.categories.map fun category => (cells.find? fun c => c.names f category).map (·.parameter)

/-- A cell names the category at the position of its own one, and no other. -/
theorem names_iff_position {f : Field} (hk : f.categoryKeys.Nodup) {c : Cell} {v category : String}
    (hv : c.category = some v) {i j : Nat}
    (hi : Span.position? f ((Scalar.string v).key f.raw.dataType) = some i)
    (hj : f.categories[j]? = some category) : c.names f category = true ↔ i = j := by
  have hkey := Field.getElem?_categoryKeys hj
  unfold Cell.names
  rw [hv, Option.any_some, beq_iff_eq]
  constructor
  · intro heq
    rw [heq] at hi
    have := (Span.position?_eq_some_iff hk).mpr hkey
    rw [hi] at this
    exact Option.some.inj this
  · intro heq
    subst heq
    have := (Span.position?_eq_some_iff hk).mp hi
    rw [hkey] at this
    exact (Option.some.inj this).symm

/-- One cell more claims one slot more. -/
theorem claimed_append {offset : Nat} {f : Field} (hk : f.categoryKeys.Nodup) {field : String}
    {earlier : List Cell} {c : Cell} {slots : Slots}
    (h : claim field ⟨offset, .categorical f⟩ (claimed f earlier) c = .ok slots) :
    slots = claimed f (earlier ++ [c]) := by
  obtain ⟨v, i, hv, hi, hfree, rfl⟩ := claim_eq_ok.mp h
  apply List.ext_getElem?
  intro j
  unfold claimed at hfree ⊢
  rw [List.getElem?_set, List.getElem?_map, List.getElem?_map, List.length_map]
  cases hj : f.categories[j]? with
  | none =>
    have := List.getElem?_eq_none_iff.mp hj
    have := Span.lt_of_position? hi
    rw [if_neg (by omega)]
    rfl
  | some category =>
    have hnames := names_iff_position hk hv hi hj
    rw [Option.map_some, Option.map_some, List.find?_append]
    by_cases hij : i = j
    -- the slot was free, so no earlier cell names its category
    · subst hij
      have hnone : (earlier.find? fun c => c.names f category) = none := by
        unfold Slots.parameter? at hfree
        rw [List.getElem?_map, hj] at hfree
        simpa using hfree
      rw [if_pos rfl, if_pos (Span.lt_of_position? hi), hnone]
      simp [hnames.mpr rfl]
    · have hother : c.names f category = false := by
        rw [← Bool.not_eq_true, hnames]
        exact hij
      rw [if_neg hij]
      simp [hother]

/-- A cell that has claimed a slot keeps it: of the cells that name its category it is the first. -/
theorem getElem?_claimed {f : Field} (hk : f.categoryKeys.Nodup) {earlier later : List Cell} {c : Cell}
    {v : String} {i : Nat} (hv : c.category = some v)
    (hi : Span.position? f ((Scalar.string v).key f.raw.dataType) = some i)
    (hfree : (claimed f earlier).parameter? i = none) :
    (claimed f (earlier ++ c :: later))[i]? = some (some c.parameter) := by
  obtain ⟨category, hcategory⟩ : ∃ category, f.categories[i]? = some category :=
    ⟨_, List.getElem?_eq_getElem (Span.lt_of_position? hi)⟩
  have hnames : c.names f category = true := (names_iff_position hk hv hi hcategory).mpr rfl
  -- a free slot means that no earlier cell names the category
  have hnone : (earlier.find? fun c => c.names f category) = none := by
    unfold Slots.parameter? claimed at hfree
    rw [List.getElem?_map, hcategory] at hfree
    simpa using hfree
  unfold claimed
  rw [List.getElem?_map, hcategory, Option.map_some, List.find?_append, hnone, Option.none_or,
    List.find?_cons, hnames]
  rfl

/-- Cells that claim their slots one after the other. -/
theorem foldlM_claim {offset : Nat} {f : Field} (hk : f.categoryKeys.Nodup) {field : String}
    {earlier cells : List Cell} {slots : Slots}
    (h : cells.foldlM (claim field ⟨offset, .categorical f⟩) (claimed f earlier) = .ok slots) :
    slots = claimed f (earlier ++ cells) ∧ ∀ c ∈ cells, ∃ v i, c.category = some v ∧
      Span.position? f ((Scalar.string v).key f.raw.dataType) = some i ∧
        slots[i]? = some (some c.parameter) := by
  induction cells generalizing earlier with
  | nil =>
    simp only [List.foldlM_nil, pure, Except.pure, Except.ok.injEq] at h
    simp [h]
  | cons c rest ih =>
    rw [List.foldlM_cons, Outcome.bind_eq_ok] at h
    obtain ⟨next, hnext, hrest⟩ := h
    -- from here on the cell counts as an earlier one
    rw [claimed_append hk hnext] at hrest
    obtain ⟨hslots, hall⟩ := ih hrest
    rw [List.append_assoc, List.singleton_append] at hslots
    refine ⟨hslots, fun d hd => ?_⟩
    rcases List.mem_cons.mp hd with rfl | hd
    · obtain ⟨v, i, hv, hi, hfree, -⟩ := claim_eq_ok.mp hnext
      exact ⟨v, i, hv, hi, hslots ▸ getElem?_claimed hk hv hi hfree⟩
    · exact hall d hd

/-- A continuous field has one cell, whose parameter takes the only slot. -/
theorem slotsOf_continuous {field : String} {offset : Nat} {f : Field} {cells : List Cell}
    {slots : Slots} (h : slotsOf field ⟨offset, .continuous f⟩ cells = .ok slots) :
    ∃ c, cells = [c] ∧ slots = [some c.parameter] := by
  unfold slotsOf Span.kind at h
  match cells, h with
  | [c], h =>
    cases h
    exact ⟨c, rfl, rfl⟩
  | [], h => simp at h
  | c :: d :: rest, h => simp at h

/-- Every cell of a categorical field claims the slot of a declared category, and the other slots stay free. -/
theorem slotsOf_categorical {field : String} {offset : Nat} {f : Field} (hk : f.categoryKeys.Nodup)
    {cells : List Cell} {slots : Slots}
    (h : slotsOf field ⟨offset, .categorical f⟩ cells = .ok slots) :
    slots = claimed f cells ∧ ∀ c ∈ cells, ∃ v i, c.category = some v ∧
      Span.position? f ((Scalar.string v).key f.raw.dataType) = some i ∧
        slots[i]? = some (some c.parameter) := by
  -- before the first cell nothing is claimed
  have hfree : List.replicate (Span.size ⟨offset, .categorical f⟩) none = claimed f [] := by
    unfold claimed Span.size
    simp [List.map_const']
  have hfold : cells.foldlM (claim field ⟨offset, .categorical f⟩) (claimed f []) = .ok slots := by
    rw [← hfree]
    unfold slotsOf Span.kind at h
    exact h
  simpa using foldlM_claim hk hfold

theorem length_slotsOf {field : String} {f : Field} {span : Span} {cells : List Cell} {slots : Slots}
    (hspan : Span.ofField f span.offset = .ok span) (h : slotsOf field span cells = .ok slots) :
    slots.length = span.size := by
  rcases Span.ofField_eq_ok.mp hspan with ⟨-, -, hs⟩ | ⟨-, -, hk, hs⟩
  · rw [hs] at h ⊢
    obtain ⟨c, -, rfl⟩ := slotsOf_continuous h
    rfl
  · rw [hs] at h ⊢
    rw [(slotsOf_categorical hk h).1]
    exact List.length_map _

end Layout

/-! ## 4. Rows of blocks -/

namespace Block

def OfField (s : Scope) (e : String × List Cell) (b : Block) : Prop :=
  ∃ f, s.resolve e.1 = .ok f ∧ Span.ofField f b.span.offset = .ok b.span ∧
    Layout.slotsOf e.1 b.span e.2 = .ok b.slots

def OfIntercept (p : String) (b : Block) : Prop :=
  b.span.encoding = .intercept p ∧ b.slots = [some p]

end Block

namespace Layout

theorem exists_of_placeFields {s : Scope} {start : Nat} {es : List (String × List Cell)} {l : Layout}
    (h : placeFields s start es = .ok l) :
    ∃ bs, l = ofBlocks bs ∧ Block.InRow start bs ∧ List.Forall₂ (Block.OfField s) es bs := by
  induction es generalizing start l with
  | nil =>
    cases h
    exact ⟨[], rfl, trivial, List.Forall₂.nil⟩
  | cons e rest ih =>
    obtain ⟨field, cells⟩ := e
    unfold placeFields at h
    simp only [Outcome.bind_eq_ok] at h
    obtain ⟨f, hf, span, hspan, slots, hslots, behind, hbehind, hl⟩ := h
    cases hl
    have hoff := Span.offset_of_ofField hspan
    rw [← hoff] at hspan
    -- the row behind starts where this span stops
    obtain ⟨bs, rfl, hrow, hall⟩ := ih hbehind
    refine ⟨⟨span, slots⟩ :: bs, rfl, ⟨hoff, length_slotsOf hspan hslots, hrow⟩, ?_⟩
    exact List.Forall₂.cons ⟨f, hf, hspan, hslots⟩ hall

theorem exists_of_placeIntercepts (start : Nat) (ps : List String) :
    ∃ bs, placeIntercepts start ps = ofBlocks bs ∧ Block.InRow start bs ∧
      List.Forall₂ Block.OfIntercept ps bs := by
  induction ps generalizing start with
  | nil => exact ⟨[], rfl, trivial, List.Forall₂.nil⟩
  | cons p rest ih =>
    obtain ⟨bs, hbs, hrow, hall⟩ := ih (start + 1)
    refine ⟨⟨⟨start, .intercept p⟩, [some p]⟩ :: bs, ?_, ⟨rfl, rfl, hrow⟩, ?_⟩
    · unfold placeIntercepts
      rw [hbs]
      rfl
    · exact List.Forall₂.cons ⟨rfl, rfl⟩ hall

/-- The blocks of a layout: a row for the fields that have cells, by name, and behind it a row for the parameters
without one. -/
structure Arrangement (d : Declarations) (s : Scope) (l : Layout) where
  fields : List Block
  intercepts : List Block
  layout_eq : l = ofBlocks (fields ++ intercepts)
  inRow : Block.InRow 0 (fields ++ intercepts)
  ofFields : List.Forall₂ (Block.OfField s) (cellsByField d.cells).entries fields
  ofIntercepts : List.Forall₂ Block.OfIntercept d.unclaimed intercepts
  parameters_nodup : d.parameters.Nodup
  cells_declared : ∀ c ∈ d.cells, c.parameter ∈ d.parameters
  cells_nodup : (d.cells.map (·.parameter)).Nodup

theorem size_ofBlocks {bs : List Block} (h : Block.InRow 0 bs) :
    (ofBlocks bs).size = (ofBlocks bs).slots.length := by
  rw [size_eq_sum, ← h.length_slots]

/-- The rows of fields and of intercepts make up a row of as many slots as indices. -/
theorem exists_row {d : Declarations} {s : Scope} {fields : Layout}
    (h : placeFields s 0 (cellsByField d.cells).entries = .ok fields) :
    ∃ fs is, List.Forall₂ (Block.OfField s) (cellsByField d.cells).entries fs ∧
      List.Forall₂ Block.OfIntercept d.unclaimed is ∧ Block.InRow 0 (fs ++ is) ∧
      (⟨fields.spans ++ (placeIntercepts fields.size d.unclaimed).spans,
        fields.slots ++ (placeIntercepts fields.size d.unclaimed).slots⟩ : Layout) =
        ofBlocks (fs ++ is) := by
  obtain ⟨fs, rfl, hrow, hfields⟩ := exists_of_placeFields h
  have hsize : (ofBlocks fs).size = 0 + (ofBlocks fs).slots.length := by
    rw [Nat.zero_add, size_ofBlocks hrow]
  obtain ⟨is, his, hrow', hintercepts⟩ := exists_of_placeIntercepts (ofBlocks fs).size d.unclaimed
  refine ⟨fs, is, hfields, hintercepts, hrow.append (hsize ▸ hrow'), ?_⟩
  rw [his, ofBlocks_append]

/-- The check of the sizes never fails: declarations that pass their checks are laid out as soon as their fields
can be placed. -/
theorem arrange_eq (d : Declarations) (s : Scope) :
    arrange d s = (do
      checkParameters [] d.parameters
      checkCells d.parameters [] d.cells
      let fields ← placeFields s 0 (cellsByField d.cells).entries
      let intercepts := placeIntercepts fields.size d.unclaimed
      .ok ⟨fields.spans ++ intercepts.spans, fields.slots ++ intercepts.slots⟩ : Outcome Layout) := by
  unfold arrange
  cases checkParameters [] d.parameters with
  | error e => rfl
  | ok _ =>
    cases checkCells d.parameters [] d.cells with
    | error e => rfl
    | ok _ =>
      cases hp : placeFields s 0 (cellsByField d.cells).entries with
      | error e => rfl
      | ok fields =>
        obtain ⟨fs, is, -, -, hrow, heq⟩ := exists_row hp
        have hsize := size_ofBlocks hrow
        rw [← heq] at hsize
        exact if_pos hsize

theorem nonempty_arrangement {d : Declarations} {s : Scope} {l : Layout} (h : arrange d s = .ok l) :
    Nonempty (Arrangement d s l) := by
  rw [arrange_eq] at h
  simp only [Outcome.bind_eq_ok] at h
  obtain ⟨_, hparameters, _, hcells, fields, hfields, hl⟩ := h
  cases hl
  obtain ⟨fs, is, hall, hrest, hrow, heq⟩ := exists_row hfields
  obtain ⟨hdeclared, hnodup, -⟩ := checkCells_eq_ok.mp hcells
  exact ⟨⟨fs, is, heq, hrow, hall, hrest, (checkParameters_eq_ok.mp hparameters).1, hdeclared,
    hnodup⟩⟩

end Layout

end Scoring
