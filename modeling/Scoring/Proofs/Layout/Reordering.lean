import Scoring.Proofs.Layout.Placement

/-!
# Reordering — layouts of declarations in another order

A layout lists fields by name, so the order of the cells shows in it no more than the order of the parameters that
have a cell does. What could depend on it is who comes first: the checks stop at the first cell that is wrong, and the
cells of a categorical field claim their slots one after the other. Where all of them succeed they do so in any order
(`arrange_of_perm`). Nor does a layout depend on more of its scope than the fields that names resolve to
(`arrange_eq_of_resolve`).
-/

namespace Scoring

namespace Layout

/-! ## 1. Scopes -/

variable {s s' : Scope}

theorem placeFields_eq_of_resolve (h : ∀ name, s'.resolve name = s.resolve name) (start : Nat)
    (es : List (String × List Cell)) : placeFields s' start es = placeFields s start es := by
  induction es generalizing start with
  | nil => rfl
  | cons e rest ih =>
    unfold placeFields
    simp only [h, ih]

theorem arrange_eq_of_resolve (h : ∀ name, s'.resolve name = s.resolve name) (d : Declarations) :
    arrange d s' = arrange d s := by
  unfold arrange
  rw [placeFields_eq_of_resolve h]

/-! ## 2. Slots -/

/-- Two cells that claim their slots one after the other may do so the other way round. -/
theorem claim_comm {field : String} {span : Span} {slots slots' : Slots} {c c' : Cell}
    (h : (claim field span slots c >>= (claim field span · c')) = .ok slots') :
    (claim field span slots c' >>= (claim field span · c)) = .ok slots' := by
  obtain ⟨between, hc, hc'⟩ := Outcome.bind_eq_ok.mp h
  obtain ⟨v, i, hv, hi, hfree, rfl⟩ := claim_eq_ok.mp hc
  obtain ⟨v', i', hv', hi', hfree', rfl⟩ := claim_eq_ok.mp hc'
  rw [Outcome.bind_eq_ok]
  unfold Slots.parameter? at hfree hfree'
  by_cases hii : i = i'
  -- the second cell finds its slot free, so there is no such slot and nothing was put there
  · subst hii
    have hlen : slots.length ≤ i := by
      by_contra hlt
      rw [List.getElem?_set_self (by omega)] at hfree'
      cases hfree'
    have hset := fun p : Option String => List.set_eq_of_length_le (l := slots) (a := p) hlen
    simp only [hset]
    refine ⟨slots, claim_eq_ok.mpr ⟨v', i, hv', hi', hfree, ?_⟩, claim_eq_ok.mpr ⟨v, i, hv, hi, hfree, ?_⟩⟩
    · rw [hset]
    · rw [hset]
  · rw [List.getElem?_set_ne hii] at hfree'
    refine ⟨slots.set i' (some c'.parameter), claim_eq_ok.mpr ⟨v', i', hv', hi', hfree', rfl⟩,
      claim_eq_ok.mpr ⟨v, i, hv, hi, ?_, List.set_comm _ _ hii⟩⟩
    unfold Slots.parameter?
    rw [List.getElem?_set_ne (Ne.symm hii)]
    exact hfree

theorem slotsOf_of_perm {field : String} {span : Span} {cells cells' : List Cell} (h : cells.Perm cells')
    {slots : Slots} (hs : slotsOf field span cells = .ok slots) :
    slotsOf field span cells' = .ok slots := by
  obtain ⟨offset, encoding⟩ := span
  cases encoding with
  | continuous f =>
    obtain ⟨c, rfl, -⟩ := slotsOf_continuous hs
    rwa [← List.singleton_perm.mp h]
  | categorical f =>
    show cells'.foldlM (claim field ⟨offset, .categorical f⟩)
      (List.replicate (Span.size ⟨offset, .categorical f⟩) none) = .ok slots
    refine Outcome.foldlM_of_perm ?_ h hs
    intro slots slots' c c'
    exact claim_comm
  | intercept p => exact hs

/-! ## 3. Fields -/

/-- The fields that have cells, by name, with their cells. -/
theorem entries_cellsByField (cells : List Cell) :
    (cellsByField cells).entries =
      (cellsByField cells).names.map fun n => (n, cells.filter (·.field == n)) := by
  unfold Table.names
  rw [List.map_map]
  refine (List.map_id _).symm.trans (List.map_congr_left fun e he => ?_)
  rw [Function.comp_apply, ← eq_filter_of_mem_cellsByField he]
  rfl

theorem names_cellsByField_of_perm {cells cells' : List Cell} (h : cells.Perm cells') :
    (cellsByField cells).names = (cellsByField cells').names := by
  apply eq_of_ascending_of_mem_iff (Table.names_pairwise _) (Table.names_pairwise _)
  intro n
  rw [mem_names_cellsByField, mem_names_cellsByField, (h.map _).mem_iff]

theorem placeFields_of_perm {cells cells' : List Cell} (h : cells.Perm cells') {names : List String}
    {start : Nat} {l : Layout}
    (hl : placeFields s start (names.map fun n => (n, cells.filter (·.field == n))) = .ok l) :
    placeFields s start (names.map fun n => (n, cells'.filter (·.field == n))) = .ok l := by
  induction names generalizing start l with
  | nil => exact hl
  | cons n names ih =>
    rw [List.map_cons] at hl ⊢
    unfold placeFields at hl ⊢
    simp only [Outcome.bind_eq_ok] at hl ⊢
    obtain ⟨f, hf, span, hspan, slots, hslots, behind, hbehind, hl⟩ := hl
    exact ⟨f, hf, span, hspan, slots, slotsOf_of_perm (h.filter _) hslots, behind, ih hbehind, hl⟩

/-! ## 4. Layouts -/

/-- Declarations that differ only in the order of their cells, and of the parameters with a cell, have the same
layout. -/
theorem arrange_of_perm {d d' : Declarations} (hparameters : d.parameters.Perm d'.parameters)
    (hcells : d.cells.Perm d'.cells) (hunclaimed : d.unclaimed = d'.unclaimed) {l : Layout}
    (h : arrange d s = .ok l) : arrange d' s = .ok l := by
  rw [arrange_eq] at h ⊢
  simp only [Outcome.bind_eq_ok] at h ⊢
  obtain ⟨⟨⟩, hp, ⟨⟩, hc, fields, hfields, hl⟩ := h
  refine ⟨(), ?_, (), ?_, fields, ?_, hunclaimed ▸ hl⟩
  · rw [checkParameters_eq_ok] at hp ⊢
    exact ⟨hparameters.nodup_iff.mp hp.1, fun p hmem => hp.2 p (hparameters.mem_iff.mpr hmem)⟩
  · rw [checkCells_eq_ok] at hc ⊢
    obtain ⟨hdeclared, hnodup, hfresh⟩ := hc
    refine ⟨fun c hmem => ?_, (hcells.map _).nodup_iff.mp hnodup, fun c hmem => ?_⟩
    · exact hparameters.mem_iff.mp (hdeclared c (hcells.mem_iff.mpr hmem))
    · exact hfresh c (hcells.mem_iff.mpr hmem)
  · rw [entries_cellsByField] at hfields ⊢
    rw [← names_cellsByField_of_perm hcells]
    exact placeFields_of_perm hcells hfields

/-- The order of the cells does not show in a layout. -/
theorem arrange_eq_ok_iff_of_perm {parameters : List String} {cells cells' : List Cell} (h : cells.Perm cells')
    {l : Layout} : arrange ⟨parameters, cells⟩ s = .ok l ↔ arrange ⟨parameters, cells'⟩ s = .ok l := by
  have hunclaimed : ∀ {cells cells' : List Cell}, cells.Perm cells' →
      Declarations.unclaimed ⟨parameters, cells⟩ = Declarations.unclaimed ⟨parameters, cells'⟩ := by
    intro cells cells' h
    unfold Declarations.unclaimed
    simp only [(h.map Cell.parameter).mem_iff]
  constructor
  · exact arrange_of_perm (List.Perm.refl parameters) h (hunclaimed h)
  · exact arrange_of_perm (List.Perm.refl parameters) h.symm (hunclaimed h.symm)

end Layout

end Scoring
