import Scoring.Proofs.Field.Reordering
import Scoring.Proofs.Layout.Replacement
import Scoring.Proofs.Linear.Predictor

/-!
# Naming — the parameters of a regression table

The terms of a table have no names for their parameters, so the compiler makes them up: the field of a numeric term,
field and category around an equals sign, and one name for the intercept. Where the terms are sound these names decide
(`regression_of_sound`): the table is accepted if and only if they differ, and they do if no field has an equals sign in
its name and none is named like the intercept.
-/

namespace Scoring

open Spec (CategoryTerm Document NumericTerm RegressionTable)

/-! ## 1. Names -/

namespace Spec.RegressionTable

variable {t : RegressionTable}

/-- The names that are made up for the parameters of a table differ, if those of the numeric terms do. -/
structure NamesDiffer (t : RegressionTable) : Prop where
  intercept : ∀ n ∈ t.numericTerms, n.field ≠ Compile.interceptParameter
  apart : ∀ n ∈ t.numericTerms, ∀ c ∈ t.categoryTerms, n.field ≠ (Compile.categoryCell c).parameter
  categories : (t.categoryTerms.map fun c => (Compile.categoryCell c).parameter).Nodup

theorem parameters_eq_append (t : RegressionTable) :
    t.declarations.parameters = t.numericTerms.map (·.field) ++
      (t.categoryTerms.map (fun c => (Compile.categoryCell c).parameter) ++ [Compile.interceptParameter]) := by
  rw [parameters_eq, declarations, Compile.tableCells]
  simp only [List.map_append, List.map_map, List.append_assoc]
  rfl

theorem cells_eq_append (t : RegressionTable) :
    t.declarations.cells = t.numericTerms.map Compile.numericCell ++ t.categoryTerms.map Compile.categoryCell := by
  rw [declarations, Compile.tableCells]
  simp only [List.map_append, List.map_map]
  rfl

end Spec.RegressionTable

namespace Compile

theorem toList_categoryCell (c : CategoryTerm) :
    (categoryCell c).parameter.toList = c.field.toList ++ '=' :: c.value.toList := by
  have heq : "=".toList = ['='] := rfl
  show (toString c.field ++ "=" ++ toString c.value).toList = _
  simp [toString, heq]

/-- A text in front of the first equals sign. -/
theorem takeWhile_before_equals {xs : List Char} (h : '=' ∉ xs) (ys : List Char) :
    (xs ++ '=' :: ys).takeWhile (· != '=') = xs := by
  have hall : ∀ x ∈ xs, (x != '=') = true := by
    intro x hx
    rw [bne_iff_ne]
    rintro rfl
    exact h hx
  rw [List.takeWhile_append_of_pos hall]
  simp

theorem eq_of_parameter_eq {c c' : CategoryTerm} (hc : '=' ∉ c.field.toList) (hc' : '=' ∉ c'.field.toList)
    (h : (categoryCell c).parameter = (categoryCell c').parameter) : c.field = c'.field ∧ c.value = c'.value := by
  have hlist := congrArg String.toList h
  rw [toList_categoryCell, toList_categoryCell] at hlist
  have hfield := congrArg (List.takeWhile (· != '=')) hlist
  rw [takeWhile_before_equals hc, takeWhile_before_equals hc'] at hfield
  rw [hfield, List.append_cancel_left_eq, List.cons.injEq] at hlist
  exact ⟨String.toList_inj.mp hfield, String.toList_inj.mp hlist.2⟩

theorem parameter_ne_of_notMem {c : CategoryTerm} {name : String} (h : '=' ∉ name.toList) :
    name ≠ (categoryCell c).parameter := by
  rintro rfl
  rw [toList_categoryCell] at h
  simp at h

end Compile

namespace Spec.RegressionTable

variable {t : RegressionTable}

/-- The intercept has a name of its own among those of categories, which have an equals sign. -/
theorem intercept_notMem (t : RegressionTable) :
    Compile.interceptParameter ∉ t.categoryTerms.map fun c => (Compile.categoryCell c).parameter := by
  intro hmem
  obtain ⟨c, -, hc⟩ := List.mem_map.mp hmem
  exact Compile.parameter_ne_of_notMem (by decide) hc.symm

theorem nodup_parameters_iff (hnumeric : (t.numericTerms.map (·.field)).Nodup) :
    t.declarations.parameters.Nodup ↔ t.NamesDiffer := by
  rw [parameters_eq_append, List.nodup_append', List.nodup_append']
  constructor
  · rintro ⟨-, ⟨hcategories, -, -⟩, hdisjoint⟩
    refine ⟨fun n hn heq => ?_, fun n hn c hc heq => ?_, hcategories⟩
    · exact hdisjoint (List.mem_map_of_mem hn) (List.mem_append_right _ (List.mem_singleton.mpr heq))
    · exact hdisjoint (List.mem_map_of_mem hn) (List.mem_append_left _ (List.mem_map.mpr ⟨c, hc, heq.symm⟩))
  · intro h
    refine ⟨hnumeric, ⟨h.categories, List.nodup_singleton _, ?_⟩, ?_⟩
    · exact List.disjoint_singleton.mpr t.intercept_notMem
    · intro p hp hp'
      obtain ⟨n, hn, rfl⟩ := List.mem_map.mp hp
      rcases List.mem_append.mp hp' with hp' | hp'
      · obtain ⟨c, hc, heq⟩ := List.mem_map.mp hp'
        exact h.apart n hn c hc heq.symm
      · exact h.intercept n hn (List.mem_singleton.mp hp')

end Spec.RegressionTable

/-! ## 2. Slots -/

namespace Layout

/-- Cells of different categories, all of them declared and free, claim their slots one after the other. -/
theorem exists_foldlM_claim {field : String} {span : Span} {cells : List Cell} {slots : Slots}
    (hdeclared : ∀ c ∈ cells, ∃ v i, c.category = some v ∧ span.categoryPosition? v = some i)
    (hdistinct : cells.Pairwise fun c c' =>
      c.category.bind span.categoryPosition? ≠ c'.category.bind span.categoryPosition?)
    (hfree : ∀ c ∈ cells, ∀ i, c.category.bind span.categoryPosition? = some i → slots.parameter? i = none) :
    ∃ slots', cells.foldlM (claim field span) slots = .ok slots' := by
  -- a claim leaves the slots of the cells behind it as they are
  induction cells generalizing slots with
  | nil => exact ⟨slots, rfl⟩
  | cons c rest ih =>
    rw [List.forall_mem_cons] at hdeclared hfree
    rw [List.pairwise_cons] at hdistinct
    obtain ⟨⟨v, i, hv, hi⟩, hdeclared⟩ := hdeclared
    have hc : c.category.bind span.categoryPosition? = some i := by rw [hv, Option.bind_some, hi]
    have hclaim : claim field span slots c = .ok (slots.set i (some c.parameter)) :=
      claim_eq_ok.mpr ⟨v, i, hv, hi, hfree.1 i hc, rfl⟩
    rw [List.foldlM_cons, hclaim, Outcome.ok_bind]
    refine ih hdeclared hdistinct.2 fun c' hc' j hj => ?_
    have hne : i ≠ j := by
      rintro rfl
      exact hdistinct.1 c' hc' (hc.trans hj.symm)
    have hold := hfree.2 c' hc' j hj
    unfold Slots.parameter? at hold ⊢
    rw [List.getElem?_set_ne hne, hold]

theorem exists_slotsOf_categorical {field : String} {offset : Nat} {f : Field} {cells : List Cell}
    (hdeclared : ∀ c ∈ cells, ∃ v i, c.category = some v ∧
      Span.position? f ((Scalar.string v).key f.raw.dataType) = some i)
    (hdistinct : cells.Pairwise fun c c' =>
      (c.category.bind fun v => Span.position? f ((Scalar.string v).key f.raw.dataType)) ≠
        c'.category.bind fun v => Span.position? f ((Scalar.string v).key f.raw.dataType)) :
    ∃ slots, slotsOf field ⟨offset, .categorical f⟩ cells = .ok slots := by
  have hfree : ∀ i, (Slots.parameter? (List.replicate f.categories.length none) i) = none := by
    intro i
    unfold Slots.parameter?
    rw [List.getElem?_replicate]
    split <;> rfl
  exact exists_foldlM_claim hdeclared hdistinct fun c _ i _ => hfree i

/-- Fields are placed one after the other if each of them can be placed anywhere. -/
theorem exists_placeFields {s : Scope} {es : List (String × List Cell)}
    (h : ∀ e ∈ es, ∃ f, s.resolve e.1 = .ok f ∧
      ∀ offset, ∃ span slots, Span.ofField f offset = .ok span ∧ slotsOf e.1 span e.2 = .ok slots) (start : Nat) :
    ∃ l, placeFields s start es = .ok l := by
  induction es generalizing start with
  | nil => exact ⟨_, rfl⟩
  | cons e rest ih =>
    obtain ⟨field, cells⟩ := e
    rw [List.forall_mem_cons] at h
    obtain ⟨⟨f, hf, hplace⟩, hrest⟩ := h
    obtain ⟨span, slots, hspan, hslots⟩ := hplace start
    obtain ⟨l, hl⟩ := ih hrest span.stop
    refine ⟨⟨span :: l.spans, slots ++ l.slots⟩, ?_⟩
    unfold placeFields
    simp only [hf, hspan, hslots, hl, Outcome.ok_bind]

/-- The parameter that a check complains about is declared a second time. -/
theorem checkParameters_eq_error {seen ps : List String} {e : Fault} (h : checkParameters seen ps = .error e) :
    ∃ p before after, e = .malformed (.repeatedParameter p) ∧ ps = before ++ p :: after ∧
      (p ∈ seen ∨ p ∈ before) := by
  induction ps generalizing seen with
  | nil => cases h
  | cons p rest ih =>
    unfold checkParameters at h
    split at h
    · rename_i hseen
      cases h
      exact ⟨p, [], rest, rfl, rfl, .inl hseen⟩
    · obtain ⟨q, before, after, he, hrest, hq⟩ := ih h
      refine ⟨q, p :: before, after, he, by rw [hrest, List.cons_append], ?_⟩
      rw [List.mem_cons] at hq ⊢
      tauto

end Layout

/-! ## 3. Sound tables -/

def Scope.placeOf? (s : Scope) (c : CategoryTerm) : Option Nat :=
  (s.resolve c.field).toOption.bind fun f => Span.position? f ((Scalar.string c.value).key f.raw.dataType)

/-- Each numeric term has a numeric field of its own, and each other term a category of its own that its field
declares. -/
structure Spec.RegressionTable.Sound (t : RegressionTable) (s : Scope) : Prop where
  fields : (t.numericTerms.map (·.field)).Nodup
  number : ∀ n ∈ t.numericTerms, ∃ f, s.resolve n.field = .ok f ∧ f.IsNumber
  category : ∀ c ∈ t.categoryTerms, ∃ f, s.resolve c.field = .ok f ∧ f.optype = .categorical ∧
    (∃ span, Span.ofField f 0 = .ok span) ∧ ∃ i, s.placeOf? c = some i
  places : t.categoryTerms.Pairwise fun c c' => c.field = c'.field → s.placeOf? c ≠ s.placeOf? c'

namespace Spec.RegressionTable.Sound

open Compile (categoryCell numericCell)

variable {t : RegressionTable} {s : Scope}

/-- No field has terms of both kinds. -/
theorem field_ne (h : t.Sound s) {n : NumericTerm} (hn : n ∈ t.numericTerms) {c : CategoryTerm}
    (hc : c ∈ t.categoryTerms) : n.field ≠ c.field := by
  intro heq
  obtain ⟨f, hf, hnumber, -⟩ := h.number n hn
  obtain ⟨g, hg, hcategorical, -⟩ := h.category c hc
  rw [heq, hg] at hf
  cases hf
  rw [hcategorical] at hnumber
  cases hnumber

/-- No cells of terms belong to a field that none of the terms is about. -/
theorem filter_cells_eq_nil {α : Type} {cell : α → Cell} {terms : List α} {field : String}
    (h : ∀ x ∈ terms, (cell x).field ≠ field) : (terms.map cell).filter (·.field == field) = [] := by
  refine List.filter_eq_nil_iff.mpr fun c hc => ?_
  obtain ⟨x, hx, rfl⟩ := List.mem_map.mp hc
  rw [beq_iff_eq]
  exact h x hx

theorem filter_number (h : t.Sound s) {n : NumericTerm} (hn : n ∈ t.numericTerms) :
    t.declarations.cells.filter (·.field == n.field) = [numericCell n] := by
  have hsingle : t.numericTerms.filter (fun m => m.field == n.field) = [n] := by
    have hmem : n ∈ t.numericTerms.filter fun m => m.field == n.field := List.mem_filter.mpr ⟨hn, beq_self_eq_true _⟩
    have hone := length_filter_le_one h.fields n.field
    obtain ⟨m, hm⟩ := List.length_eq_one_iff.mp (Nat.le_antisymm hone (List.length_pos_of_mem hmem))
    rw [hm, List.mem_singleton] at hmem
    rw [hm, hmem]
  have hothers : (t.categoryTerms.map categoryCell).filter (·.field == n.field) = [] :=
    filter_cells_eq_nil fun c hc => (h.field_ne hn hc).symm
  rw [cells_eq_append, List.filter_append, hothers, List.append_nil, List.filter_map]
  exact congrArg (List.map numericCell) hsingle

theorem filter_category (h : t.Sound s) {c : CategoryTerm} (hc : c ∈ t.categoryTerms) :
    t.declarations.cells.filter (·.field == c.field) =
      (t.categoryTerms.filter (·.field == c.field)).map categoryCell := by
  have hothers : (t.numericTerms.map numericCell).filter (·.field == c.field) = [] :=
    filter_cells_eq_nil fun n hn => h.field_ne hn hc
  rw [cells_eq_append, List.filter_append, hothers, List.nil_append, List.filter_map]
  rfl

/-- The categories of a field's terms claim their slots one after the other. -/
theorem exists_slots (h : t.Sound s) {c : CategoryTerm} {f : Field} (hf : s.resolve c.field = .ok f) (offset : Nat) :
    ∃ slots, Layout.slotsOf c.field ⟨offset, .categorical f⟩
      ((t.categoryTerms.filter (·.field == c.field)).map categoryCell) = .ok slots := by
  have hplace : ∀ c' ∈ t.categoryTerms.filter (·.field == c.field),
      s.placeOf? c' = Span.position? f ((Scalar.string c'.value).key f.raw.dataType) := by
    intro c' hc'
    have hfield : c'.field = c.field := eq_of_beq (List.mem_filter.mp hc').2
    rw [Scope.placeOf?, hfield, hf]
    rfl
  refine Layout.exists_slotsOf_categorical ?_ ?_
  · intro cell hcell
    obtain ⟨c', hc', rfl⟩ := List.mem_map.mp hcell
    obtain ⟨_, -, -, -, i, hi⟩ := h.category c' (List.mem_filter.mp hc').1
    exact ⟨c'.value, i, rfl, (hplace c' hc').symm.trans hi⟩
  · rw [List.pairwise_map]
    refine (h.places.sublist List.filter_sublist).imp_of_mem fun {c₁ c₂} hc₁ hc₂ hne => ?_
    have hfield : c₁.field = c₂.field :=
      (eq_of_beq (List.mem_filter.mp hc₁).2).trans (eq_of_beq (List.mem_filter.mp hc₂).2).symm
    exact fun heq => hne hfield ((hplace c₁ hc₁).trans (Eq.trans heq (hplace c₂ hc₂).symm))

/-- The fields of a sound table can be placed. -/
theorem exists_placeFields (h : t.Sound s) :
    ∃ l, Layout.placeFields s 0 (Layout.cellsByField t.declarations.cells).entries = .ok l := by
  refine Layout.exists_placeFields (fun e he => ?_) 0
  have hcells := Layout.eq_filter_of_mem_cellsByField he
  have hname : e.1 ∈ t.declarations.cells.map (·.field) :=
    Layout.mem_names_cellsByField.mp (List.mem_map_of_mem he)
  obtain ⟨cell, hcell, hfield⟩ := List.mem_map.mp hname
  rw [← hfield] at hcells ⊢
  rcases mem_cells.mp hcell with ⟨n, hn, rfl⟩ | ⟨c, hc, rfl⟩
  · obtain ⟨f, hf, hcontinuous, hnumeric⟩ := h.number n hn
    refine ⟨f, hf, fun offset => ⟨⟨offset, .continuous f⟩, [some n.field], ?_, ?_⟩⟩
    · exact Span.ofField_eq_ok.mpr (.inl ⟨hcontinuous, hnumeric, rfl⟩)
    · rw [hcells, show (numericCell n).field = n.field from rfl, h.filter_number hn]
      rfl
  · obtain ⟨f, hf, hcategorical, ⟨span, hspan⟩, -⟩ := h.category c hc
    obtain ⟨hdeclared, hkeys, -⟩ := Span.eq_of_ofField_categorical hspan hcategorical
    refine ⟨f, hf, fun offset => ?_⟩
    obtain ⟨slots, hslots⟩ := h.exists_slots hf offset
    refine ⟨⟨offset, .categorical f⟩, slots, Span.ofField_eq_ok.mpr (.inr ⟨hcategorical, hdeclared, hkeys, rfl⟩), ?_⟩
    rw [hcells, show (categoryCell c).field = c.field from rfl, h.filter_category hc]
    exact hslots

/-- A sound table is laid out as soon as the names of its parameters differ. -/
theorem exists_arrange (h : t.Sound s) (hnames : t.declarations.parameters.Nodup) :
    ∃ l, Layout.arrange t.declarations s = .ok l := by
  obtain ⟨fields, hfields⟩ := h.exists_placeFields
  have hcells : Layout.checkCells t.declarations.parameters [] t.declarations.cells = .ok () := by
    rw [parameters_eq] at hnames ⊢
    refine Layout.checkCells_eq_ok.mpr ⟨fun c hc => ?_, (List.nodup_append'.mp hnames).1, fun c _ => List.not_mem_nil⟩
    exact List.mem_append_left _ (List.mem_map_of_mem hc)
  have hparameters : Layout.checkParameters [] t.declarations.parameters = .ok () :=
    Layout.checkParameters_eq_ok.mpr ⟨hnames, fun p _ => List.not_mem_nil⟩
  rw [Layout.arrange_eq, hparameters, hcells, hfields]
  exact ⟨_, rfl⟩

end Spec.RegressionTable.Sound

/-! ## 4. Compiling -/

namespace Compile

theorem namesDiffer_of_plain {t : RegressionTable} {s : Scope} (h : t.Sound s)
    (hnumeric : ∀ n ∈ t.numericTerms, '=' ∉ n.field.toList ∧ n.field ≠ interceptParameter)
    (hcategories : ∀ c ∈ t.categoryTerms, '=' ∉ c.field.toList) : t.NamesDiffer where
  intercept n hn := (hnumeric n hn).2
  apart n hn c _ := parameter_ne_of_notMem (hnumeric n hn).1
  categories := by
    rw [List.Nodup, List.pairwise_map]
    refine h.places.imp_of_mem fun {c c'} hc hc' hne heq => ?_
    obtain ⟨hfield, hvalue⟩ := eq_of_parameter_eq (hcategories c hc) (hcategories c' hc') heq
    refine hne hfield ?_
    rw [Scope.placeOf?, Scope.placeOf?, hfield, hvalue]

/-- Once a table has passed its checks, a model fails for the reason that its terms cannot be laid out. -/
theorem regression_of_arrange_eq_error {d : Document} {m : Spec.Regression} {kind : LinearKind}
    {table : RegressionTable} {classes : Classes} (hparts : regressionParts d m = .ok (kind, table, classes))
    (hexponents : checkExponents table = .ok ()) {e : Fault}
    (h : Layout.arrange table.declarations (scope d m.schema m.transformations) = .error e) :
    regression d m = .error e := by
  have hlayout : Layout.arrange ⟨(tableParameters table).map (·.1), (tableCells table).map (·.1)⟩
      (scope d m.schema m.transformations) = .error e := h
  unfold regression
  rw [hparts, Outcome.ok_bind]
  simp only [hexponents, hlayout, Outcome.ok_bind, Outcome.error_bind]

/-- A sound table is accepted if and only if the names that are made up for its parameters differ; else the compiler
complains about a parameter that is declared a second time. The names differ if no field has an equals sign in its name
and no numeric term is about a field that is named like the intercept. -/
theorem regression_of_sound {d : Document} {m : Spec.Regression} {kind : LinearKind} {table : RegressionTable}
    {classes : Classes} (hparts : regressionParts d m = .ok (kind, table, classes))
    (hexponents : checkExponents table = .ok ()) (hsound : table.Sound (scope d m.schema m.transformations)) :
    ((∃ s, regression d m = .ok s) ↔ table.NamesDiffer) ∧
      (∀ e, regression d m = .error e → ∃ p before after, e = .malformed (.repeatedParameter p) ∧
        table.declarations.parameters = before ++ p :: after ∧ p ∈ before) ∧
      ((∀ n ∈ table.numericTerms, '=' ∉ n.field.toList ∧ n.field ≠ interceptParameter) →
        (∀ c ∈ table.categoryTerms, '=' ∉ c.field.toList) → ∃ s, regression d m = .ok s) := by
  have haccepted : table.declarations.parameters.Nodup → ∃ s, regression d m = .ok s := by
    intro hnames
    obtain ⟨layout, hlayout⟩ := hsound.exists_arrange hnames
    obtain ⟨a⟩ := Layout.nonempty_arrangement hlayout
    obtain ⟨v, hv, -⟩ := Layout.exists_vectorizer a.contiguous
    exact ⟨_, regression_eq_ok.mpr ⟨kind, table, classes, layout, v, hparts, hexponents, hlayout, hv, rfl⟩⟩
  have hnodup := Spec.RegressionTable.nodup_parameters_iff hsound.fields
  refine ⟨⟨?_, fun h => haccepted (hnodup.mpr h)⟩, ?_, fun hnumeric hcategories => ?_⟩
  · rintro ⟨s, hs⟩
    obtain ⟨kind', table', classes', layout, v, hparts', -, hlayout, -⟩ := regression_eq_ok.mp hs
    cases hparts.symm.trans hparts'
    obtain ⟨a⟩ := Layout.nonempty_arrangement hlayout
    exact hnodup.mp a.parameters_nodup
  · intro e he
    cases hcheck : Layout.checkParameters [] table.declarations.parameters with
    | ok _ =>
      obtain ⟨s, hs⟩ := haccepted (Layout.checkParameters_eq_ok.mp hcheck).1
      rw [hs] at he
      cases he
    | error e' =>
      have hfailed : regression d m = .error e' := by
        refine regression_of_arrange_eq_error hparts hexponents ?_
        rw [Layout.arrange_eq, hcheck]
        rfl
      rw [hfailed] at he
      cases he
      obtain ⟨p, before, after, hp, hparameters, hseen | hbefore⟩ := Layout.checkParameters_eq_error hcheck
      · cases hseen
      · exact ⟨p, before, after, hp, hparameters, hbefore⟩
  · exact haccepted (hnodup.mpr (namesDiffer_of_plain hsound hnumeric hcategories))

/-- A term that is sound by what its field is found to be. -/
theorem exists_isNumber {s : Scope} {name : String}
    (h : (s.resolve name).toOption.map (fun f => decide (f.optype = .continuous ∧ f.dataType.isNumeric = true)) =
      some true) : ∃ f, s.resolve name = .ok f ∧ f.IsNumber := by
  obtain ⟨f, hf, hnumber⟩ := Outcome.exists_of_toOption_map h
  exact ⟨f, hf, show f.optype = .continuous ∧ f.dataType.isNumeric = true from of_decide_eq_true hnumber⟩

theorem exists_categorical {s : Scope} {c : CategoryTerm}
    (h : (s.resolve c.field).toOption.map (fun f => decide (f.optype = .categorical) && (Span.ofField f 0).isOk) =
      some true) (hplace : (s.placeOf? c).isSome = true) :
    ∃ f, s.resolve c.field = .ok f ∧ f.optype = .categorical ∧ (∃ span, Span.ofField f 0 = .ok span) ∧
      ∃ i, s.placeOf? c = some i := by
  obtain ⟨f, hf, hparts⟩ := Outcome.exists_of_toOption_map h
  rw [Bool.and_eq_true] at hparts
  exact ⟨f, hf, of_decide_eq_true hparts.1, Outcome.exists_of_isOk hparts.2, Option.isSome_iff_exists.mp hplace⟩

theorem sound_grade : (⟨1.0, some "1", [⟨"age", 1, 0.5⟩], [⟨"grade", "B", 2.0⟩]⟩ : RegressionTable).Sound
    (scope gradeDocument gradeSchema ⟨[]⟩) where
  fields := by decide
  number := by
    rw [List.forall_mem_singleton]
    exact exists_isNumber (by decide +kernel)
  category := by
    rw [List.forall_mem_singleton]
    exact exists_categorical (by decide +kernel) (by decide +kernel)
  places := List.pairwise_singleton _ _

theorem regression_of_sound_grade : ∃ kind table classes s,
    regressionParts gradeDocument gradeRegression = .ok (kind, table, classes) ∧ checkExponents table = .ok () ∧
      table.Sound (scope gradeDocument gradeSchema ⟨[]⟩) ∧ regression gradeDocument gradeRegression = .ok s := by
  obtain ⟨⟨kind, table, classes⟩, hparts⟩ :=
    Outcome.exists_of_isOk (show (regressionParts gradeDocument gradeRegression).isOk = true by decide +kernel)
  obtain ⟨rest, target, htables, -⟩ := steps_of_regressionParts hparts
  cases htables
  obtain ⟨s, hs⟩ := (regression_of_sound hparts rfl sound_grade).2.2 (by decide) (by decide)
  exact ⟨kind, _, classes, s, hparts, rfl, sound_grade, hs⟩

/-- A field that is named like the intercept, and one that is named like the category of another. -/
def namesakeDocument : Document where
  version := none
  dictionary := ⟨[.continuous "(intercept)" .double, .continuous "grade=B" .double,
    .categorical "grade" .string ["A", "B"], .categorical "y" .integer ["0", "1"]]⟩
  transformations := ⟨[]⟩
  models := []

def namesakeRegression (table : RegressionTable) : Spec.Regression where
  name := none
  function := .classification
  normalization := .none
  schema := gradeSchema
  transformations := ⟨[]⟩
  tables := [table, ⟨0.0, some "0", [], []⟩]

def namesakeOfIntercept : RegressionTable :=
  ⟨0.25, some "1", [⟨"(intercept)", 1, 0.5⟩], []⟩

def namesakeOfCategory : RegressionTable :=
  ⟨0.25, some "1", [⟨"grade=B", 1, 0.5⟩], [⟨"grade", "B", 2.0⟩]⟩

theorem sound_namesakes : namesakeOfIntercept.Sound (scope namesakeDocument gradeSchema ⟨[]⟩) ∧
    namesakeOfCategory.Sound (scope namesakeDocument gradeSchema ⟨[]⟩) := by
  refine ⟨⟨by decide, ?_, List.forall_mem_nil _, .nil⟩, ⟨by decide, ?_, ?_, List.pairwise_singleton _ _⟩⟩
  · exact List.forall_mem_singleton.mpr (exists_isNumber (by decide +kernel))
  · exact List.forall_mem_singleton.mpr (exists_isNumber (by decide +kernel))
  · exact List.forall_mem_singleton.mpr (exists_categorical (by decide +kernel) (by decide +kernel))

theorem parts_of_namesake (table : RegressionTable)
    (h : (regressionParts namesakeDocument (namesakeRegression table)).isOk = true) :
    ∃ kind classes, regressionParts namesakeDocument (namesakeRegression table) = .ok (kind, table, classes) := by
  obtain ⟨⟨kind, table', classes⟩, hparts⟩ := Outcome.exists_of_isOk h
  obtain ⟨rest, target, htables, -⟩ := steps_of_regressionParts hparts
  cases htables
  exact ⟨kind, classes, hparts⟩

/-- Sound tables are refused for names that they do not give, also the one that the other compiler accepts. -/
theorem namesakes_refused :
    (∃ kind classes, regressionParts namesakeDocument (namesakeRegression namesakeOfIntercept) =
        .ok (kind, namesakeOfIntercept, classes) ∧ checkExponents namesakeOfIntercept = .ok () ∧
      namesakeOfIntercept.Sound (scope namesakeDocument gradeSchema ⟨[]⟩) ∧
      regression namesakeDocument (namesakeRegression namesakeOfIntercept) =
        .error (.malformed (.repeatedParameter "(intercept)")) ∧
      ∃ s, precomputedRegression namesakeDocument (namesakeRegression namesakeOfIntercept) = .ok s) ∧
    ∃ kind classes, regressionParts namesakeDocument (namesakeRegression namesakeOfCategory) =
        .ok (kind, namesakeOfCategory, classes) ∧ checkExponents namesakeOfCategory = .ok () ∧
      namesakeOfCategory.Sound (scope namesakeDocument gradeSchema ⟨[]⟩) ∧
      regression namesakeDocument (namesakeRegression namesakeOfCategory) =
        .error (.malformed (.repeatedParameter "grade=B")) := by
  obtain ⟨hintercept, hcategory⟩ := sound_namesakes
  constructor
  · obtain ⟨kind, classes, hparts⟩ := parts_of_namesake namesakeOfIntercept (by decide +kernel)
    refine ⟨kind, classes, hparts, rfl, hintercept, ?_, _,
      precomputedRegression_eq_ok.mpr ⟨kind, _, classes, hparts, rfl, rfl, rfl⟩⟩
    exact regression_of_arrange_eq_error hparts rfl (by rw [Layout.arrange_eq]; rfl)
  · obtain ⟨kind, classes, hparts⟩ := parts_of_namesake namesakeOfCategory (by decide +kernel)
    refine ⟨kind, classes, hparts, rfl, hcategory, ?_⟩
    exact regression_of_arrange_eq_error hparts rfl (by rw [Layout.arrange_eq]; rfl)

end Compile

end Scoring
