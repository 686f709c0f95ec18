import Mathlib.Data.List.Destutter
import Mathlib.Data.List.Sort
import Mathlib.Data.String.Basic
import Scoring.Proofs.Bisection
import Scoring.Proofs.Field.Observation
import Scoring.Proofs.Field.Resolution

/-!
# Intake — which fields a model reads

An intake is made from a list of names, in any order and with repetitions. It holds the field that each of them resolves
to, once, and by ascending names: the same as if the fields were sorted by name and of each run of equal names only the
first were kept (`Intake.values_eq_destutter`), so they can be looked up by halving. What it observes in a record are
the values of these fields and no others (`Intake.reads_named_fields`).
-/

namespace Scoring

/-! ## 1. Rows by name -/

section Runs

variable {α : Type} {key : α → String}

/-- Every item that goes has left one of its key behind. -/
theorem exists_mem_destutter {xs : List α} {x : α} (hx : x ∈ xs) :
    ∃ y ∈ xs.destutter fun a b => key a ≠ key b, key y = key x := by
  cases xs with
  | nil => cases hx
  | cons a rest =>
    rw [List.destutter_cons']
    induction rest generalizing a x with
    | nil => exact ⟨x, hx, rfl⟩
    | cons b rest ih =>
      rw [List.destutter'_cons]
      split
      · rcases List.mem_cons.mp hx with rfl | hx
        · exact ⟨x, List.mem_cons_self, rfl⟩
        · obtain ⟨y, hy, hkey⟩ := ih b hx
          exact ⟨y, List.mem_cons_of_mem _ hy, hkey⟩
      · rename_i hsame
        rcases List.mem_cons.mp hx with rfl | hx
        · exact ih x List.mem_cons_self
        · rcases List.mem_cons.mp hx with rfl | hx
          -- the item that goes, for which the start of its run stands
          · obtain ⟨y, hy, hkey⟩ := ih a List.mem_cons_self
            exact ⟨y, hy, hkey.trans (not_not.mp hsame)⟩
          · exact ih a (List.mem_cons_of_mem _ hx)

/-- Among items that ascend by key, the first ones of the runs ascend strictly. -/
theorem ascending_destutter {xs : List α} (h : xs.Pairwise fun a b => key a ≤ key b) :
    ((xs.destutter fun a b => key a ≠ key b).map key).Pairwise (· < ·) := by
  have hordered := h.sublist (List.destutter_sublist (fun a b => key a ≠ key b) xs)
  have hdiffers := List.isChain_destutter (fun a b => key a ≠ key b) xs
  rw [← List.isChain_iff_pairwise, List.isChain_map]
  rw [List.isChain_iff_getElem] at hdiffers ⊢
  intro k hk
  have hle := List.pairwise_iff_getElem.mp hordered k (k + 1) (Nat.lt_of_succ_lt hk) hk (Nat.lt_succ_self k)
  exact lt_of_le_of_ne hle (hdiffers k hk)

end Runs

/-- Halving the names finds what a look-up finds. -/
theorem Table.find?_eq_bisect {α : Type} (t : Table α) (n : String) :
    t.find? n = (bisect t.names n).bind (t.values[·]?) := by
  apply Option.ext
  intro a
  rw [find?_eq_some_iff]
  exact (bisect_entries_eq_some_iff t.ascending).symm

/-! ## 2. Fields of the listed names -/

namespace Intake

variable {s : Scope} {names : List String} {i : Intake} {n : String} {f : Field}

theorem exists_of_ofNames (h : ofNames s names = .ok i) :
    ∃ fields, List.Forall₂ (fun n f => s.resolve n = .ok f) names fields ∧
      i = Table.ofList (fields.map fun f => (f.name, f)) := by
  unfold ofNames at h
  rw [Outcome.bind_eq_ok] at h
  obtain ⟨fields, hfields, hi⟩ := h
  cases hi
  exact ⟨fields, Outcome.mapM_eq_ok.mp hfields, rfl⟩

/-- An intake can be made when every name resolves. -/
theorem exists_ofNames_iff : (∃ i, ofNames s names = .ok i) ↔ ∀ n ∈ names, ∃ f, s.resolve n = .ok f := by
  rw [← Outcome.exists_mapM_eq_ok_iff]
  unfold ofNames
  simp only [Outcome.bind_eq_ok]
  constructor
  · rintro ⟨i, fields, hfields, -⟩
    exact ⟨fields, hfields⟩
  · rintro ⟨fields, hfields⟩
    exact ⟨_, fields, hfields, rfl⟩

theorem mem_fields_iff {fields : List Field} (h : List.Forall₂ (fun n f => s.resolve n = .ok f) names fields) :
    f ∈ fields ↔ f.name ∈ names ∧ s.resolve f.name = .ok f := by
  constructor
  · intro hf
    obtain ⟨n, hn, hresolve⟩ := Outcome.exists_left_of_forall₂ h hf
    have hname := Scope.name_of_resolve hresolve
    subst hname
    exact ⟨hn, hresolve⟩
  · rintro ⟨hn, hresolve⟩
    obtain ⟨g, hg, hresolve'⟩ := Outcome.exists_right_of_forall₂ h hn
    rw [hresolve, Except.ok.injEq] at hresolve'
    exact hresolve' ▸ hg

theorem mem_names_of_ofNames (h : ofNames s names = .ok i) : n ∈ i.names ↔ n ∈ names := by
  obtain ⟨fields, hfields, rfl⟩ := exists_of_ofNames h
  rw [Table.mem_names_ofList, List.map_map]
  constructor
  · intro hn
    obtain ⟨f, hf, rfl⟩ := List.mem_map.mp hn
    exact ((mem_fields_iff hfields).mp hf).1
  · intro hn
    obtain ⟨f, hf, hresolve⟩ := Outcome.exists_right_of_forall₂ hfields hn
    exact List.mem_map.mpr ⟨f, hf, Scope.name_of_resolve hresolve⟩

/-- Looking a name up gives what it resolves to, if it was listed. -/
theorem find?_eq_some_iff_resolve (h : ofNames s names = .ok i) :
    i.find? n = some f ↔ n ∈ names ∧ s.resolve n = .ok f := by
  have hsound : ∀ g, i.find? n = some g → n ∈ names ∧ s.resolve n = .ok g := by
    intro g hg
    obtain ⟨fields, hfields, rfl⟩ := exists_of_ofNames h
    obtain ⟨f', hf', heq⟩ := List.mem_map.mp (Table.mem_of_find?_ofList hg)
    cases heq
    exact (mem_fields_iff hfields).mp hf'
  refine ⟨hsound f, fun ⟨hn, hresolve⟩ => ?_⟩
  -- the name is known, and only its own field can be found under it
  cases hg : i.find? n with
  | none => exact absurd ((mem_names_of_ofNames h).mpr hn) (Table.find?_eq_none_iff.mp hg)
  | some g =>
    have hresolve' := (hsound g hg).2
    rw [hresolve, Except.ok.injEq] at hresolve'
    rw [hresolve']

theorem mem_values_iff (h : ofNames s names = .ok i) :
    f ∈ i.values ↔ f.name ∈ names ∧ s.resolve f.name = .ok f := by
  rw [← find?_eq_some_iff_resolve h]
  constructor
  · intro hf
    obtain ⟨⟨n, g⟩, hentry, rfl⟩ := List.mem_map.mp hf
    have hfind := Table.find?_eq_some_iff.mpr hentry
    rwa [name_of_find? h hfind]
  · intro hfind
    exact List.mem_map_of_mem (Table.find?_eq_some_iff.mp hfind)

/-- The fields stand under their own names. -/
theorem map_name_values (h : ofNames s names = .ok i) : i.values.map (·.name) = i.names := by
  unfold Table.values Table.names
  rw [List.map_map]
  refine List.map_congr_left ?_
  rintro ⟨n, f⟩ hentry
  exact name_of_find? h (Table.find?_eq_some_iff.mpr hentry)

/-! ## 3. Sorting -/

/-- Sorting the fields by name and keeping the first of each run of equal names gives the fields of the intake. -/
theorem values_eq_destutter {fields : List Field} (hfields : names.mapM s.resolve = .ok fields)
    (h : ofNames s names = .ok i) :
    i.values = (fields.mergeSort fun f g => f.name ≤ g.name).destutter fun f g => f.name ≠ g.name := by
  have hresolved := Outcome.mapM_eq_ok.mp hfields
  have hperm := List.mergeSort_perm fields fun f g : Field => decide (f.name ≤ g.name)
  have hsorted : (fields.mergeSort fun f g => f.name ≤ g.name).Pairwise fun f g => f.name ≤ g.name :=
    List.pairwise_mergeSort' _ fields
  have hvalues : (i.values.map (·.name)).Pairwise (· < ·) := map_name_values h ▸ i.names_pairwise
  -- both lists ascend, so it is enough that they hold the same fields
  refine (List.pairwise_map.mp hvalues).eq_of_mem_iff (List.pairwise_map.mp (ascending_destutter hsorted)) fun f => ?_
  rw [mem_values_iff h, ← mem_fields_iff hresolved]
  constructor
  · intro hf
    obtain ⟨g, hg, hname⟩ := @exists_mem_destutter Field Field.name _ f (hperm.mem_iff.mpr hf)
    have hgfields : g ∈ fields := hperm.subset ((List.destutter_sublist _ _).subset hg)
    have hresolve := ((mem_fields_iff hresolved).mp hgfields).2
    rw [hname, ((mem_fields_iff hresolved).mp hf).2, Except.ok.injEq] at hresolve
    exact hresolve ▸ hg
  · exact fun hf => hperm.subset ((List.destutter_sublist _ _).subset hf)

end Intake

/-! ## 4. Observations -/

/-- A field is observed when it has no value, or a single one that fits its type. -/
theorem Field.exists_observe_iff {f : Field} {r : Record} :
    (∃ w, f.observe r = .ok w) ↔
      (f.values r).length ≤ 1 ∧ ∀ v ∈ f.values r, (v.coerce? f.dataType).isSome := by
  unfold observe
  split
  · rename_i hvalues
    rw [hvalues]
    exact iff_of_true ⟨_, rfl⟩ (by simp)
  · rename_i v hvalues
    rw [hvalues]
    cases hcoerce : v.coerce? f.dataType with
    | none => exact iff_of_false (by simp) (by simp [hcoerce])
    | some w => exact iff_of_true ⟨_, rfl⟩ (by simp [hcoerce])
  · rename_i hnil hone
    have hlength := two_le_length hnil hone
    exact iff_of_false (by simp) fun h => by omega

/-- What is observed is the first value, brought to the type of the field. -/
theorem Field.eq_head?_of_observe {f : Field} {r : Record} {w : Option Scalar} (h : f.observe r = .ok w) :
    w = (f.values r).head?.bind (·.coerce? f.dataType) := by
  unfold observe at h
  split at h
  · rename_i hvalues
    cases h
    rw [hvalues]
    rfl
  · rename_i v hvalues
    rw [hvalues]
    split at h
    · rename_i hcoerce
      cases h
      exact hcoerce.symm
    · cases h
  · cases h

namespace Intake

variable {s : Scope} {names : List String} {i : Intake} {n : String} {f : Field} {r : Record} {o : Observation}

theorem exists_observe_iff :
    (∃ o, i.observe r = .ok o) ↔ ∀ f ∈ i.values,
      (f.values r).length ≤ 1 ∧ ∀ v ∈ f.values r, (v.coerce? f.dataType).isSome := by
  have hsteps : (∃ values, (i.entries.mapM fun e => do .ok (e.1, ← e.2.observe r) :
      Outcome (List (String × Option Scalar))) = .ok values) ↔ ∀ e ∈ i.entries, ∃ w, e.2.observe r = .ok w := by
    rw [Outcome.exists_mapM_eq_ok_iff]
    simp [Outcome.bind_eq_ok]
  simp only [← Field.exists_observe_iff]
  unfold observe Table.values
  simp only [Outcome.bind_eq_ok]
  rw [List.forall_mem_map, ← hsteps]
  constructor
  · rintro ⟨o, values, hvalues, -⟩
    exact ⟨values, hvalues⟩
  · rintro ⟨values, hvalues⟩
    exact ⟨_, values, hvalues, rfl⟩

theorem find?_of_observe (h : i.observe r = .ok o) (hf : i.find? n = some f) :
    o.find? n = some ((f.values r).head?.bind (·.coerce? f.dataType)) := by
  have hvalue := Field.eq_head?_of_observe (observe_of_find? h hf)
  cases hfind : o.find? n with
  | none =>
    have hn : n ∈ i.names := List.mem_map_of_mem (Table.find?_eq_some_iff.mp hf)
    exact absurd (names_of_observe h ▸ hn) (Table.find?_eq_none_iff.mp hfind)
  | some w =>
    unfold Observation.value? at hvalue
    rw [hfind, Option.join_some] at hvalue
    rw [hvalue]

/-- An intake of listed names holds what each of them resolves to, once and by ascending names, whatever the order and
the repetitions of the list: the fields sorted, and the first of each run of equal names. So looking a name up, also by
halving, finds its field exactly when it was listed. A record is observed when no field has several values or one that
does not fit its type; the observation then gives every field of the intake its value, or nothing where there is none,
and the check of the intake's own names accepts it. -/
theorem reads_named_fields (s : Scope) (names : List String) :
    ((∃ i, ofNames s names = .ok i) ↔ ∀ n ∈ names, ∃ f, s.resolve n = .ok f) ∧
    ∀ i, ofNames s names = .ok i →
      (i.values.map (·.name)).Pairwise (· < ·) ∧ (∀ n, n ∈ i.values.map (·.name) ↔ n ∈ names) ∧
      (∀ fields, names.mapM s.resolve = .ok fields → i.values =
        (fields.mergeSort fun f g => f.name ≤ g.name).destutter fun f g => f.name ≠ g.name) ∧
      (∀ n f, i.find? n = some f ↔ n ∈ names ∧ s.resolve n = .ok f) ∧
      (∀ n, i.find? n = (bisect (i.values.map (·.name)) n).bind (i.values[·]?)) ∧
      ∀ r,
        ((∃ o, i.observe r = .ok o) ↔ ∀ f ∈ i.values,
          (f.values r).length ≤ 1 ∧ ∀ v ∈ f.values r, (v.coerce? f.dataType).isSome) ∧
        ∀ o, i.observe r = .ok o →
          (∀ n, n ∈ o.names ↔ n ∈ names) ∧
          (∀ n f, i.find? n = some f →
            o.find? n = some ((f.values r).head?.bind (·.coerce? f.dataType))) ∧
          o.check (i.values.map (·.name)) = .ok () := by
  refine ⟨exists_ofNames_iff, fun i hi => ?_⟩
  rw [map_name_values hi]
  refine ⟨i.names_pairwise, fun n => mem_names_of_ofNames hi, fun fields hfields => values_eq_destutter hfields hi,
    fun n f => find?_eq_some_iff_resolve hi, Table.find?_eq_bisect i,
    fun r => ⟨exists_observe_iff, fun o ho => ?_⟩⟩
  have hnames := names_of_observe ho
  refine ⟨fun n => ?_, fun n f hf => find?_of_observe ho hf, Observation.check_eq_ok hnames⟩
  rw [hnames]
  exact mem_names_of_ofNames hi

/-! An age and a kind of work, of which the work is named twice. -/

def workScope : Scope :=
  ⟨⟨[.continuous "age" .double, .categorical "work" .string ["Private", "State-gov"]]⟩, [], none⟩

def ageField : Field :=
  ⟨"age", .continuous "age" .double, .continuous, .double, []⟩

def workField : Field :=
  ⟨"work", .categorical "work" .string ["Private", "State-gov"], .categorical, .string, []⟩

theorem resolve_age : workScope.resolve "age" = .ok ageField := by
  have hraw : workScope.dictionary.field? "age" = some ageField.raw := rfl
  rw [Scope.resolve_of_field? hraw]
  rfl

theorem resolve_work : workScope.resolve "work" = .ok workField := by
  have hraw : workScope.dictionary.field? "work" = some workField.raw := rfl
  rw [Scope.resolve_of_field? hraw]
  rfl

/-- Somebody aged 39 whose work is not known is observed, and somebody with two ages is not. -/
theorem reads_named_fields_work :
    ∃ i, ofNames workScope ["work", "age", "work"] = .ok i ∧ i.values.map (·.name) = ["age", "work"] ∧
      (∃ o, i.observe (.ofJson (.object [("age", .string "39")])) = .ok o ∧
        o.find? "age" = some (some (.double 39.0)) ∧ o.find? "work" = some none ∧
        o.check ["age", "work"] = .ok ()) ∧
      ¬ ∃ o, i.observe (.ofJson (.object [("age", .array [.int 1, .int 2])])) = .ok o := by
  obtain ⟨hmade, hfields⟩ := reads_named_fields workScope ["work", "age", "work"]
  obtain ⟨i, hi⟩ := hmade.mpr (by
    simp only [List.forall_mem_cons]
    exact ⟨⟨_, resolve_work⟩, ⟨_, resolve_age⟩, ⟨_, resolve_work⟩, by simp⟩)
  obtain ⟨hascending, hlisted, -, hfind, -, hrecords⟩ := hfields i hi
  have hnames : i.values.map (·.name) = ["age", "work"] := by
    refine eq_of_ascending_of_mem_iff hascending (by decide) fun n => ?_
    rw [hlisted]
    simp only [List.mem_cons, List.not_mem_nil, or_false]
    tauto
  have hage : i.find? "age" = some ageField := (hfind _ _).mpr ⟨by decide, resolve_age⟩
  have hwork : i.find? "work" = some workField := (hfind _ _).mpr ⟨by decide, resolve_work⟩
  have hknown : ∀ f ∈ i.values, f = ageField ∨ f = workField := by
    intro f hf
    obtain ⟨hn, hresolve⟩ := (mem_values_iff hi).mp hf
    have hname : f.name = "age" ∨ f.name = "work" := by
      rw [← hlisted, hnames] at hn
      simpa using hn
    rcases hname with hn | hn
    · rw [hn, resolve_age, Except.ok.injEq] at hresolve
      exact .inl hresolve.symm
    · rw [hn, resolve_work, Except.ok.injEq] at hresolve
      exact .inr hresolve.symm
  refine ⟨i, hi, hnames, ?_, ?_⟩
  · obtain ⟨hobserves, hshows⟩ := hrecords (.ofJson (.object [("age", .string "39")]))
    obtain ⟨o, ho⟩ := hobserves.mpr (by
      intro f hf
      rcases hknown f hf with rfl | rfl
      · decide +kernel
      · decide +kernel)
    obtain ⟨-, hvalues, hcheck⟩ := hshows o ho
    refine ⟨o, ho, (hvalues _ _ hage).trans ?_, hvalues _ _ hwork, hnames ▸ hcheck⟩
    rfl
  · rw [(hrecords _).1]
    intro h
    have hmem : ageField ∈ i.values := List.mem_map_of_mem (Table.find?_eq_some_iff.mp hage)
    exact absurd (h ageField hmem).1 (by decide)

end Intake

end Scoring
