import Mathlib.Data.List.Nodup
import Mathlib.Data.List.Perm.Subperm
import Scoring.Layout.Span
import Scoring.Proofs.Outcome

/-!
# Span — what a span stores

The spans of fields are well formed: the keys of a categorical field's categories differ, so a key has one
position. `Span.stored` lists what a record puts into a span by ascending index; that is what `Span.entries`
gives, up to the order in which a record shows the categories of a field.
-/

namespace Scoring

/-! ## 1. Lists without repetition -/

theorem nodup_eraseDups {α : Type} [BEq α] [LawfulBEq α] (xs : List α) : xs.eraseDups.Nodup := by
  match xs with
  | [] => simp
  | x :: rest =>
    have hshorter := List.length_filter_le (fun y => !y == x) rest
    rw [List.eraseDups_cons, List.nodup_cons, List.mem_eraseDups]
    exact ⟨by simp, nodup_eraseDups _⟩
termination_by xs.length
decreasing_by simp only [List.length_cons]; omega

/-- A list that loses nothing with its repetitions has none. -/
theorem nodup_of_length_eraseDups {α : Type} [BEq α] [LawfulBEq α] {xs : List α}
    (h : xs.eraseDups.length = xs.length) : xs.Nodup := by
  have hsubset : xs.eraseDups ⊆ xs := fun x hx => List.mem_eraseDups.mp hx
  have hperm := ((nodup_eraseDups xs).subperm hsubset).perm_of_length_le (Nat.le_of_eq h.symm)
  exact hperm.nodup_iff.mp (nodup_eraseDups xs)

/-- A list repeats a single item when it has items and they are all the same. -/
theorem eraseDups_eq_singleton_iff {α : Type} [BEq α] [LawfulBEq α] {xs : List α} {x : α} :
    xs.eraseDups = [x] ↔ xs ≠ [] ∧ ∀ y ∈ xs, y = x := by
  constructor
  · intro h
    have hmem : ∀ y, y ∈ xs ↔ y = x := by
      intro y
      rw [← List.mem_eraseDups, h, List.mem_singleton]
    exact ⟨List.ne_nil_of_mem ((hmem x).mpr rfl), fun y hy => (hmem y).mp hy⟩
  · rintro ⟨hne, hall⟩
    obtain ⟨y, hy⟩ := List.exists_mem_of_ne_nil xs hne
    have hx : x ∈ xs := hall y hy ▸ hy
    refine List.perm_singleton.mp ?_
    refine (List.perm_ext_iff_of_nodup (nodup_eraseDups xs) (List.nodup_singleton x)).mpr fun z => ?_
    rw [List.mem_eraseDups, List.mem_singleton]
    exact ⟨hall z, fun hz => hz ▸ hx⟩

/-- An item that stands at one place only has the index of that place. -/
theorem idxOf?_eq_some_iff_getElem? {α : Type} [BEq α] [LawfulBEq α] {xs : List α} {x : α} {i : Nat}
    (hunique : ∀ {j k : Nat}, xs[j]? = some x → xs[k]? = some x → j = k) :
    xs.idxOf? x = some i ↔ xs[i]? = some x := by
  rw [List.idxOf?_eq_some_iff]
  constructor
  · rintro ⟨hi, heq, -⟩
    exact List.getElem?_eq_some_iff.mpr ⟨hi, heq⟩
  · intro hx
    obtain ⟨hi, heq⟩ := List.getElem?_eq_some_iff.mp hx
    refine ⟨hi, heq, fun j hj hsame => ?_⟩
    have hji : j = i := hunique (List.getElem?_eq_some_iff.mpr ⟨by omega, hsame⟩) hx
    omega

theorem Field.getElem?_categoryKeys {f : Field} {category : String} {i : Nat}
    (h : f.categories[i]? = some category) :
    f.categoryKeys[i]? = some ((Scalar.string category).key f.raw.dataType) := by
  unfold categoryKeys
  rw [List.getElem?_map, h, Option.map_some]

namespace Span

theorem repeated?_eq_none_iff {key : String → String} {seen cs : List String} :
    repeated? key seen cs = none ↔ (cs.map key).Nodup ∧ ∀ c ∈ cs, key c ∉ seen := by
  -- the keys that were seen grow along the list
  induction cs generalizing seen with
  | nil => simp [repeated?]
  | cons c rest ih =>
    unfold repeated?
    by_cases h : key c ∈ seen
    · simp [h]
    · rw [if_neg h, ih]
      simp only [List.map_cons, List.nodup_cons, List.mem_map, List.mem_cons, not_or,
        forall_eq_or_imp]
      constructor
      · rintro ⟨hd, hrest⟩
        exact ⟨⟨fun ⟨d, hd', heq⟩ => (hrest d hd').1 heq, hd⟩, h, fun d hd' => (hrest d hd').2⟩
      · rintro ⟨⟨hc, hd⟩, -, hrest⟩
        exact ⟨hd, fun d hd' => ⟨fun heq => hc ⟨d, hd', heq⟩, hrest d hd'⟩⟩

/-! ## 2. Spans of fields -/

/-- What the span of a field can rely on: a continuous field is numeric, and the categories of a categorical
one have different keys. -/
def WellFormed (s : Span) : Prop :=
  match s.encoding with
  | .continuous f => f.dataType.isNumeric = true
  | .categorical f => f.categories ≠ [] ∧ f.categoryKeys.Nodup
  | .intercept _ => True

/-- A field has a span exactly when it is numeric, or has categories with different keys. -/
theorem ofField_eq_ok {f : Field} {offset : Nat} {s : Span} :
    ofField f offset = .ok s ↔
      (f.optype = .continuous ∧ f.dataType.isNumeric = true ∧ s = ⟨offset, .continuous f⟩) ∨
        (f.optype = .categorical ∧ f.categories ≠ [] ∧ f.categoryKeys.Nodup ∧
          s = ⟨offset, .categorical f⟩) := by
  unfold ofField
  cases hop : f.optype with
  | continuous =>
    by_cases hn : f.dataType.isNumeric = true
    · simp only [hn, if_true, Except.ok.injEq, true_and, reduceCtorEq, false_and, or_false]
      exact eq_comm
    · simp [hn]
  | categorical =>
    by_cases he : f.categories = []
    · simp [he]
    · have hkeys : repeated? (fun c => (Scalar.string c).key f.raw.dataType) [] f.categories = none ↔
          f.categoryKeys.Nodup := by
        rw [repeated?_eq_none_iff]
        simp [Field.categoryKeys]
      simp only [List.isEmpty_iff, he, if_false]
      rw [← hkeys]
      cases repeated? (fun c => (Scalar.string c).key f.raw.dataType) [] f.categories with
      | none =>
        simp only [Except.ok.injEq, reduceCtorEq, false_and, true_and, ne_eq, he,
          not_false_eq_true, false_or]
        exact eq_comm
      | some c => simp
  | ordinal => simp

theorem offset_of_ofField {f : Field} {offset : Nat} {s : Span} (h : ofField f offset = .ok s) :
    s.offset = offset := by
  rcases ofField_eq_ok.mp h with ⟨-, -, rfl⟩ | ⟨-, -, -, rfl⟩ <;> rfl

theorem name_of_ofField {f : Field} {offset : Nat} {s : Span} (h : ofField f offset = .ok s) :
    s.name = f.name := by
  rcases ofField_eq_ok.mp h with ⟨-, -, rfl⟩ | ⟨-, -, -, rfl⟩ <;> rfl

theorem field?_of_ofField {f : Field} {offset : Nat} {s : Span} (h : ofField f offset = .ok s) :
    s.field? = some f := by
  rcases ofField_eq_ok.mp h with ⟨-, -, rfl⟩ | ⟨-, -, -, rfl⟩ <;> rfl

theorem wellFormed_of_ofField {f : Field} {offset : Nat} {s : Span} (h : ofField f offset = .ok s) :
    s.WellFormed := by
  rcases ofField_eq_ok.mp h with ⟨-, hn, rfl⟩ | ⟨-, he, hk, rfl⟩
  · exact hn
  · exact ⟨he, hk⟩

/-- A key has the position of the category whose key it is. -/
theorem position?_eq_some_iff {f : Field} (hk : f.categoryKeys.Nodup) {key : String} {i : Nat} :
    position? f key = some i ↔ f.categoryKeys[i]? = some key := by
  refine idxOf?_eq_some_iff_getElem? fun hj hk' => ?_
  have hlt := (List.getElem?_eq_some_iff.mp hj).1
  exact (List.getElem?_inj hlt hk).mp (hj.trans hk'.symm)

theorem lt_of_position? {f : Field} {key : String} {i : Nat} (h : position? f key = some i) :
    i < f.categories.length := by
  obtain ⟨hi, -⟩ := List.idxOf?_eq_some_iff.mp h
  simpa [Field.categoryKeys] using hi

theorem position?_eq_none_iff {f : Field} {key : String} :
    position? f key = none ↔ key ∉ f.categoryKeys :=
  List.idxOf?_eq_none_iff

end Span

/-! ## 3. What a record shows -/

def Field.shows (f : Field) (r : Record) (category : String) : Bool :=
  (f.values r).any fun v => v.key f.raw.dataType == (Scalar.string category).key f.raw.dataType

namespace Span

/-- What a record puts into a span, by ascending index. -/
def stored (s : Span) (r : Record) : List (Nat × Float) :=
  match s.encoding with
  | .intercept _ => [(s.offset, 1.0)]
  | .continuous f =>
    match number f r with
    | .ok x => [(s.offset, x)]
    | .error _ => []
  | .categorical f =>
    (f.categories.zipIdx.filter fun e => f.shows r e.1).map fun e => (s.offset + e.2, 1.0)

/-- Positions are observed once each, and just those of the values that are there. -/
theorem observed_eq_ok {f : Field} {r : Record} {ps : List Nat} (h : observed f r = .ok ps) :
    ps.Nodup ∧ ∀ i, i ∈ ps ↔ ∃ v ∈ f.values r, position? f (v.key f.raw.dataType) = some i := by
  unfold observed at h
  rw [Outcome.bind_eq_ok] at h
  obtain ⟨all, hall, hps⟩ := h
  cases hps
  refine ⟨nodup_eraseDups all, fun i => ?_⟩
  rw [List.mem_eraseDups]
  rw [Outcome.mapM_eq_ok] at hall
  generalize f.values r = values at hall ⊢
  -- value by value, in the order of the record
  induction hall with
  | nil => simp
  | @cons v j vs is hv _ ih =>
    have hj : position? f (v.key f.raw.dataType) = some j := by
      split at hv
      · rename_i k hk
        cases hv
        exact hk
      · simp at hv
    simp only [List.mem_cons, exists_eq_or_imp, ih, hj, Option.some.injEq]
    exact or_congr_left eq_comm

/-- A category is shown exactly when its position is that of a value. -/
theorem shows_iff {f : Field} (hk : f.categoryKeys.Nodup) {r : Record} {c : String} {i : Nat}
    (hc : f.categories[i]? = some c) :
    f.shows r c = true ↔ ∃ v ∈ f.values r, position? f (v.key f.raw.dataType) = some i := by
  have hkey := Field.getElem?_categoryKeys hc
  unfold Field.shows
  simp only [List.any_eq_true, beq_iff_eq, position?_eq_some_iff hk, hkey, Option.some.injEq,
    @eq_comm _ ((Scalar.string c).key f.raw.dataType)]

theorem entries_continuous {offset : Nat} {f : Field} {r : Record} {es : List (Nat × Float)} :
    entries ⟨offset, .continuous f⟩ r = .ok es ↔ ∃ x, number f r = .ok x ∧ es = [(offset, x)] := by
  unfold entries
  rw [Outcome.bind_eq_ok]
  simp only [Except.ok.injEq, @eq_comm _ es]

theorem entries_categorical {offset : Nat} {f : Field} {r : Record} {es : List (Nat × Float)} :
    entries ⟨offset, .categorical f⟩ r = .ok es ↔
      ∃ ps, observed f r = .ok ps ∧ es = ps.map fun k => (offset + k, 1.0) := by
  unfold entries
  rw [Outcome.bind_eq_ok]
  simp only [Except.ok.injEq, @eq_comm _ es]

/-- The entries of a record are those stored, up to their order. -/
theorem entries_perm_stored {s : Span} (hs : s.WellFormed) {r : Record} {es : List (Nat × Float)}
    (h : s.entries r = .ok es) : es.Perm (s.stored r) := by
  obtain ⟨offset, encoding⟩ := s
  cases encoding with
  | intercept p =>
    cases h
    exact List.Perm.refl _
  | continuous f =>
    obtain ⟨x, hx, rfl⟩ := entries_continuous.mp h
    simp [stored, hx]
  | categorical f =>
    obtain ⟨ps, hps, rfl⟩ := entries_categorical.mp h
    obtain ⟨hd, hmem⟩ := observed_eq_ok hps
    -- both sides are images of lists of positions without repetition
    have hshown : ((f.categories.zipIdx.filter fun e => f.shows r e.1).map Prod.snd).Nodup := by
      refine List.Nodup.sublist (List.filter_sublist.map Prod.snd) ?_
      rw [List.zipIdx_map_snd]
      exact List.nodup_range'
    have hperm : ps.Perm ((f.categories.zipIdx.filter fun e => f.shows r e.1).map Prod.snd) := by
      refine (List.perm_ext_iff_of_nodup hd hshown).mpr fun i => ?_
      rw [hmem, List.mem_map]
      -- positions of values on the left, of the categories that are shown on the right
      constructor
      · rintro ⟨v, hv, hi⟩
        obtain ⟨c, hc⟩ : ∃ c, f.categories[i]? = some c :=
          ⟨_, List.getElem?_eq_getElem (lt_of_position? hi)⟩
        refine ⟨(c, i), List.mem_filter.mpr ⟨?_, ?_⟩, rfl⟩
        · exact List.mem_zipIdx_iff_getElem?.mpr hc
        · exact (shows_iff hs.2 hc).mpr ⟨v, hv, hi⟩
      · rintro ⟨⟨c, j⟩, hcj, rfl⟩
        obtain ⟨hmemz, hshow⟩ := List.mem_filter.mp hcj
        exact (shows_iff hs.2 (List.mem_zipIdx_iff_getElem?.mp hmemz)).mp hshow
    have := hperm.map fun i => (offset + i, (1.0 : Float))
    rwa [List.map_map] at this

/-- What is stored ascends strictly within the span. -/
theorem stored_ascending (s : Span) (r : Record) :
    ((s.stored r).map Prod.fst).Pairwise (· < ·) ∧
      ∀ i ∈ (s.stored r).map Prod.fst, s.offset ≤ i ∧ i < s.stop := by
  obtain ⟨offset, encoding⟩ := s
  cases encoding with
  | intercept p => simp [stored, stop, size]
  | continuous f =>
    simp only [stored]
    cases number f r <;> simp [stop, size]
  | categorical f =>
    simp only [stored, List.map_map]
    constructor
    -- the positions of all categories ascend, hence also those that are kept
    · have hall : (f.categories.zipIdx.map fun e => offset + e.2).Pairwise (· < ·) := by
        have : f.categories.zipIdx.map (fun e => offset + e.2) =
            (f.categories.zipIdx.map Prod.snd).map (offset + ·) := by
          rw [List.map_map]
          rfl
        rw [this, List.zipIdx_map_snd, List.pairwise_map]
        exact (List.pairwise_lt_range' ..).imp fun h => Nat.add_lt_add_left h offset
      exact hall.sublist (List.filter_sublist.map _)
    · intro i hi
      obtain ⟨⟨c, j⟩, hcj, rfl⟩ := List.mem_map.mp hi
      have hmemz := List.mem_zipIdx_iff_getElem?.mp (List.mem_filter.mp hcj).1
      have hj := (List.getElem?_eq_some_iff.mp hmemz).1
      simp only [Function.comp_apply, stop, size]
      omega

end Span

end Scoring
