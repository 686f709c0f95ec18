import Scoring.Proofs.Linear.Precomputed
import Scoring.Proofs.Scorer.Fit
import Std.Data.String.ToNat

/-!
# Terms — what the explanation of a linear model lists

The explanation of a score lists what each stored index contributes, under the name of its parameter, or under the index
in brackets where no parameter has it. The names that a document gives its parameters are its own affair: one that looks
like an index in brackets takes the place of that index, or the index takes its place. These are the only
contributions that are ever lost (`Compile.terms_listed`).
-/

namespace Scoring

open Spec (Document)

namespace LinearModel

variable {m : LinearModel} {v : SparseVector} {i j : Nat}

/-! ## 1. Names -/

def parameter? (m : LinearModel) (i : Nat) : Option String :=
  m.parameters.bind fun slots => slots.parameter? i

theorem termName_of_parameter {p : String} (h : m.parameter? i = some p) : m.termName i = p := by
  unfold parameter? at h
  unfold termName
  rw [h]

theorem termName_of_free (h : m.parameter? i = none) : m.termName i = s!"[{i}]" := by
  unfold parameter? at h
  unfold termName
  rw [h]

theorem toList_bracketed (i : Nat) : s!"[{i}]".toList = '[' :: (i.repr.toList ++ [']']) := by
  simp [toString]

theorem bracketed_inj (h : s!"[{i}]" = s!"[{j}]") : i = j := by
  have hlist := congrArg String.toList h
  rw [toList_bracketed, toList_bracketed, List.cons_inj_right, List.append_cancel_right_eq] at hlist
  exact Nat.repr_injective (String.toList_injective hlist)

theorem bracketed_ne_intercept (i : Nat) : s!"[{i}]" ≠ "intercept" := by
  intro h
  have hlist := congrArg String.toList h
  rw [toList_bracketed] at hlist
  cases hlist

def DistinctParameters (m : LinearModel) : Prop :=
  ∀ i j p, m.parameter? i = some p → m.parameter? j = some p → i = j

/-- The parameter of one index is called like another index, which has no parameter. -/
structure Shadows (m : LinearModel) (i j : Nat) : Prop where
  parameter : m.parameter? i = some s!"[{j}]"
  free : m.parameter? j = none

theorem Shadows.ne (h : m.Shadows i j) : i ≠ j := by
  rintro rfl
  exact absurd (h.parameter.symm.trans h.free) (by simp)

theorem Shadows.termName_eq (h : m.Shadows i j) : m.termName i = m.termName j := by
  rw [termName_of_parameter h.parameter, termName_of_free h.free]

/-- Two indices go by one name only where one shadows the other. -/
theorem shadows_of_termName_eq (hd : m.DistinctParameters) (hne : i ≠ j) (h : m.termName i = m.termName j) :
    m.Shadows i j ∨ m.Shadows j i := by
  cases hi : m.parameter? i with
  | none =>
    rw [termName_of_free hi] at h
    cases hj : m.parameter? j with
    | none =>
      rw [termName_of_free hj] at h
      exact absurd (bracketed_inj h) hne
    | some q =>
      rw [termName_of_parameter hj] at h
      exact Or.inr ⟨h ▸ hj, hi⟩
  | some p =>
    rw [termName_of_parameter hi] at h
    cases hj : m.parameter? j with
    | none =>
      rw [termName_of_free hj] at h
      exact Or.inl ⟨h ▸ hi, hj⟩
    | some q =>
      rw [termName_of_parameter hj] at h
      exact absurd (hd i j q (h ▸ hi) hj) hne

/-! ## 2. Contributions -/

def contribution (m : LinearModel) (v : SparseVector) (i : Nat) : Float :=
  m.coefficients.getD i 0.0 * v.get i

def contributions (m : LinearModel) (v : SparseVector) : List (String × Float) :=
  v.indices.map (fun i => (m.termName i, m.contribution v i)) ++
    if m.intercept != 0.0 then [("intercept", m.intercept)] else []

theorem terms_eq_ofList : m.terms v = Table.ofList (m.contributions v) := by
  have hentries : v.entries.map (fun e => (m.termName e.1, m.coefficients.getD e.1 0.0 * e.2)) =
      v.indices.map fun i => (m.termName i, m.contribution v i) := by
    rw [v.entries_eq_map_get, List.map_map]
    rfl
  unfold terms contributions
  rw [hentries]
  split
  · unfold Table.ofList
    rw [List.foldl_append]
    rfl
  · rw [List.append_nil]

theorem names_contributions : (m.contributions v).map Prod.fst =
    v.indices.map m.termName ++ if m.intercept != 0.0 then ["intercept"] else [] := by
  unfold contributions
  rw [List.map_append, List.map_map]
  split <;> rfl

def InterceptApart (m : LinearModel) : Prop :=
  (m.intercept != 0.0) = true → ∀ i, m.termName i ≠ "intercept"

/-- A contribution is listed where no greater index goes by the same name. -/
theorem find?_terms (ha : m.InterceptApart) (hi : i ∈ v.indices)
    (hlast : ∀ k ∈ v.indices, i < k → m.termName k ≠ m.termName i) :
    (m.terms v).find? (m.termName i) = some (m.contribution v i) := by
  obtain ⟨before, after, hsplit⟩ := List.append_of_mem hi
  -- only what is listed behind the index could take its place
  have hgreater : ∀ k ∈ after, i < k := by
    have hascending := v.ascending
    change v.indices.Pairwise (· < ·) at hascending
    rw [hsplit] at hascending
    exact (List.pairwise_cons.mp (List.pairwise_append.mp hascending).2.1).1
  rw [terms_eq_ofList]
  unfold contributions
  rw [hsplit, List.map_append, List.map_cons, List.append_assoc, List.cons_append]
  refine Table.find?_ofList_last fun hmem => ?_
  rw [List.map_append, List.map_map, List.mem_append] at hmem
  rcases hmem with hmem | hmem
  · obtain ⟨k, hk, hname⟩ := List.mem_map.mp hmem
    exact hlast k (by rw [hsplit]; simp [hk]) (hgreater k hk) hname
  · split at hmem
    · rename_i hintercept
      exact ha hintercept i (List.mem_singleton.mp hmem)
    · cases hmem

/-- A table lists what each stored index contributes, the intercept unless it is zero, and nothing else. -/
structure Lists (m : LinearModel) (v : SparseVector) (t : Table Float) : Prop where
  size : t.size = v.stored + if m.intercept != 0.0 then 1 else 0
  contribution : ∀ i ∈ v.indices, t.find? (m.termName i) = some (m.contribution v i)
  intercept : (m.intercept != 0.0) = true → t.find? "intercept" = some m.intercept

theorem length_contributions :
    (m.contributions v).length = v.stored + if m.intercept != 0.0 then 1 else 0 := by
  unfold contributions SparseVector.indices SparseVector.stored
  rw [List.length_append, List.length_map, List.length_map]
  split <;> rfl

/-- Everything is listed exactly when no stored index is shadowed by another. -/
theorem lists_iff (hd : m.DistinctParameters) (ha : m.InterceptApart) :
    m.Lists v (m.terms v) ↔ ∀ i ∈ v.indices, ∀ j ∈ v.indices, ¬ m.Shadows i j := by
  constructor
  -- with as many terms as contributions no name comes twice
  · intro h i hi j hj hshadows
    have hnodup : ((m.contributions v).map Prod.fst).Nodup := by
      rw [← Table.size_ofList_eq_iff, ← terms_eq_ofList, h.size, length_contributions]
    rw [names_contributions] at hnodup
    exact hshadows.ne (List.inj_on_of_nodup_map hnodup.of_append_left hi hj hshadows.termName_eq)
  · intro h
    have hinj : ∀ i ∈ v.indices, ∀ j ∈ v.indices, m.termName i = m.termName j → i = j := by
      intro i hi j hj hname
      by_contra hne
      rcases shadows_of_termName_eq hd hne hname with hshadows | hshadows
      · exact h i hi j hj hshadows
      · exact h j hj i hi hshadows
    refine ⟨?_, fun i hi => ?_, fun hintercept => ?_⟩
    · rw [terms_eq_ofList, ← length_contributions, Table.size_ofList_eq_iff, names_contributions]
      refine List.Nodup.append (List.Nodup.map_on hinj v.indices_nodup) ?_ ?_
      · split <;> simp
      · intro name hname hintercept
        split at hintercept
        · rename_i hnonzero
          obtain ⟨i, -, rfl⟩ := List.mem_map.mp hname
          exact ha hnonzero i (List.mem_singleton.mp hintercept)
        · cases hintercept
    · exact find?_terms ha hi fun k hk hlt hname => absurd (hinj k hk i hi hname) (by omega)
    · unfold terms
      rw [if_pos hintercept, Table.find?_insert_self]

/-- Of two indices of one name the greater one is listed. -/
theorem find?_terms_of_shadows (hd : m.DistinctParameters) (ha : m.InterceptApart) (hi : i ∈ v.indices)
    (hj : j ∈ v.indices) (h : m.Shadows i j) :
    (m.terms v).find? s!"[{j}]" = some (m.contribution v (max i j)) := by
  have hname : m.termName (max i j) = s!"[{j}]" := by
    rcases max_choice i j with hmax | hmax
    · rw [hmax, termName_of_parameter h.parameter]
    · rw [hmax, termName_of_free h.free]
  have hmem : max i j ∈ v.indices := by
    rcases max_choice i j with hmax | hmax
    · rwa [hmax]
    · rwa [hmax]
  rw [← hname]
  refine find?_terms ha hmem fun k hk hlt hk' => ?_
  -- a third index would be called like the free one, or have the parameter of the other one
  rw [hname, ← termName_of_free h.free] at hk'
  rcases shadows_of_termName_eq hd (by omega) hk' with hshadows | hshadows
  · have := hd k i _ hshadows.parameter h.parameter
    omega
  · exact absurd (hshadows.parameter.symm.trans h.free) (by simp)

/-- An index that neither shadows nor is shadowed keeps its contribution. -/
theorem find?_terms_of_apart (hd : m.DistinctParameters) (ha : m.InterceptApart) (hi : i ∈ v.indices)
    (h : ∀ j ∈ v.indices, ¬ m.Shadows i j ∧ ¬ m.Shadows j i) :
    (m.terms v).find? (m.termName i) = some (m.contribution v i) := by
  refine find?_terms ha hi fun k hk hlt hname => ?_
  rcases shadows_of_termName_eq hd (by omega) hname with hshadows | hshadows
  · exact (h k hk).2 hshadows
  · exact (h k hk).1 hshadows

/-! ## 3. Models of documents -/

/-- A linear model names its indices after parameters of a list, with a coefficient only where one is named. -/
structure Named (m : LinearModel) (names : List String) : Prop where
  distinct : m.DistinctParameters
  interceptApart : m.InterceptApart
  declared : ∀ i p, m.parameter? i = some p → p ∈ names
  free : m.parameters ≠ none → ∀ i, m.parameter? i = none → m.coefficients.getD i 0.0 = 0.0

/-- Without parameters the names are numbers in brackets, and all differ. -/
theorem named_of_parameters_eq_none (h : m.parameters = none) : m.Named [] := by
  have hfree : ∀ i, m.parameter? i = none := by
    intro i
    unfold parameter?
    rw [h]
    rfl
  refine ⟨fun i j p hi => ?_, fun _ i => ?_, fun i p hi => ?_, fun hp => absurd h hp⟩
  · rw [hfree] at hi
    cases hi
  · rw [termName_of_free (hfree i)]
    exact bracketed_ne_intercept i
  · rw [hfree] at hi
    cases hi

end LinearModel

/-- Where a layout has a parameter for an index, that is the name of the index. The intercept is one of them. -/
theorem Layout.Arrangement.named {d : Declarations} {s : Scope} {l : Layout} (a : Arrangement d s l)
    (betas : Table Float) (classes : Classes) :
    (⟨l.slots.coefficients betas, 0.0, classes, some l.slots⟩ : LinearModel).Named d.parameters := by
  have hslot : ∀ (i : Nat) p, l.slots.parameter? i = some p ↔ l.slots[i]? = some (some p) := by
    intro i p
    unfold Slots.parameter?
    exact Option.join_eq_some_iff
  refine ⟨fun i j p hi hj => ?_, fun hintercept => ?_, fun i p hi => ?_, fun _ i hi => ?_⟩
  · exact a.slot_unique ((hslot i p).mp hi) ((hslot j p).mp hj)
  · have hzero : ((0.0 : Float) != 0.0) = false := by decide +kernel
    exact absurd (hzero.symm.trans hintercept) (by decide)
  · exact a.declared_of_slot ((hslot i p).mp hi)
  · change l.slots.parameter? i = none at hi
    unfold Slots.coefficients
    rw [List.getD_eq_getElem?_getD, List.getElem?_map]
    unfold Slots.parameter? at hi
    cases hget : l.slots[i]? with
    | none => rfl
    | some slot =>
      rw [hget] at hi
      cases slot with
      | none => rfl
      | some p => cases hi

namespace Compile

variable {d : Document} {names : List String} {s : Scorer}

/-- The scorers that the compilers of linear models make, with the parameters that a model declares. -/
inductive Linear (d : Document) : List String → Scorer → Prop
  | generalRegression {m : Spec.GeneralRegression} {s : Scorer} (compiled : generalRegression d m = .ok s) :
      Linear d m.declarations.parameters s
  | regression {m : Spec.Regression} {table rest : Spec.RegressionTable} {s : Scorer}
      (tables : m.tables = [table, rest]) (compiled : regression d m = .ok s) :
      Linear d table.declarations.parameters s
  | precomputed {m : Spec.Regression} {s : Scorer} (compiled : precomputedRegression d m = .ok s) :
      Linear d [] s

/-- Every such scorer has a linear model for vectors of its size. -/
theorem Linear.exists_named (h : Linear d names s) :
    ∃ l, (s.classifier = .logistic l ∨ s.classifier = .margin l) ∧ s.vectorSize? = some l.size ∧ l.Named names := by
  cases h with
  | generalRegression h =>
    obtain ⟨layout, betas, classes, v, hlayout, -, hv, rfl⟩ := exists_of_generalRegression h
    obtain ⟨a⟩ := Layout.nonempty_arrangement hlayout
    exact ⟨_, Or.inl rfl, congrArg some (a.fits hv betas 0.0 classes).coefficients.symm, a.named betas classes⟩
  | regression htables h =>
    obtain ⟨kind, table, rest, layout, classes, v, htables', hlayout, hv, rfl⟩ := exists_of_regression h
    rw [htables] at htables'
    cases htables'
    obtain ⟨a⟩ := Layout.nonempty_arrangement hlayout
    exact ⟨_, classifier_eq kind _, congrArg some (a.fits hv _ 0.0 classes).coefficients.symm, a.named _ classes⟩
  | precomputed h =>
    obtain ⟨kind, coefficients, intercept, classes, rfl⟩ := exists_of_precomputedRegression h
    exact ⟨_, classifier_eq kind _, rfl, LinearModel.named_of_parameters_eq_none rfl⟩

/-- A linear model explains every vector of its size, and lists the terms. -/
theorem exists_explainVector {l : LinearModel} (hl : s.classifier = .logistic l ∨ s.classifier = .margin l)
    {v : SparseVector} (hv : v.size = l.size) : ∃ e, s.explainVector v = .ok e ∧ e.terms = l.terms v := by
  have hscore := LinearModel.score_eq_sum hv.symm
  unfold Scorer.explainVector Scorer.explain
  rcases hl with hl | hl
  · rw [hl]
    unfold LinearModel.explainLogistic
    simp only [hscore, Outcome.ok_bind]
    exact ⟨_, rfl, rfl⟩
  · rw [hl]
    unfold LinearModel.explainMargin
    simp only [hscore, Outcome.ok_bind]
    exact ⟨_, rfl, rfl⟩

/-- The explanation of a linear model lists what every stored index contributes unless a parameter is called like a
stored index in brackets that has no parameter. Then one of the two contributions is lost: the greater index is listed
for both, and if that is the one without a parameter, its zero stands for what the parameter contributes. All others
are listed. No such thing happens where no declared parameter is called like that, as in models for supplied vectors. -/
theorem terms_listed (h : Linear d names s) :
    ∃ l, (s.classifier = .logistic l ∨ s.classifier = .margin l) ∧ s.vectorSize? = some l.size ∧
      (∀ i j, l.Shadows i j → s!"[{j}]" ∈ names ∧ l.coefficients.getD j 0.0 = 0.0) ∧
      ∀ v, v.size = l.size → ∃ e, s.explainVector v = .ok e ∧
        (l.Lists v e.terms ↔ ∀ i ∈ v.indices, ∀ j ∈ v.indices, ¬ l.Shadows i j) ∧
        (∀ i ∈ v.indices, ∀ j ∈ v.indices, l.Shadows i j →
          e.terms.find? s!"[{j}]" = some (l.contribution v (max i j))) ∧
        ∀ i ∈ v.indices, (∀ j ∈ v.indices, ¬ l.Shadows i j ∧ ¬ l.Shadows j i) →
          e.terms.find? (l.termName i) = some (l.contribution v i) := by
  obtain ⟨l, hl, hsize, hnamed⟩ := h.exists_named
  refine ⟨l, hl, hsize, fun i j hshadows => ⟨hnamed.declared i _ hshadows.parameter, ?_⟩, fun v hv => ?_⟩
  · refine hnamed.free (fun hnone => ?_) j hshadows.free
    have hparameter := hshadows.parameter
    unfold LinearModel.parameter? at hparameter
    rw [hnone] at hparameter
    cases hparameter
  · obtain ⟨e, he, hterms⟩ := exists_explainVector hl hv
    refine ⟨e, he, ?_⟩
    rw [hterms]
    exact ⟨LinearModel.lists_iff hnamed.distinct hnamed.interceptApart,
      fun i hi j hj => LinearModel.find?_terms_of_shadows hnamed.distinct hnamed.interceptApart hi hj,
      fun i hi => LinearModel.find?_terms_of_apart hnamed.distinct hnamed.interceptApart hi⟩

/-! The regression on an age and a grade, once more with a parameter that is called like the index of grade `C`, which
has no parameter. -/

def bracketRegression : Spec.GeneralRegression :=
  { gradeGeneralRegression with
    parameters := [⟨"p0", none⟩, ⟨"[3]", none⟩, ⟨"p2", none⟩]
    predictorCells := [⟨none, "age", "[3]", none⟩, ⟨some "B", "grade", "p2", none⟩]
    coefficientCells := [⟨some "1", "p0", 1.0, none⟩, ⟨some "1", "[3]", 0.5, none⟩] }

def bracketVector : SparseVector :=
  ⟨5, [(0, 40.0), (3, 1.0), (4, 1.0)], by decide, by decide⟩

def slots? (s : Scorer) : Option Slots :=
  match s.classifier with
  | .logistic l => l.parameters
  | _ => none

theorem exists_bracketRegression :
    ∃ s, generalRegression gradeDocument bracketRegression = .ok s ∧
      ∀ l, (s.classifier = .logistic l ∨ s.classifier = .margin l) → l.size = 5 ∧ l.Shadows 0 3 := by
  have hslots : (generalRegression gradeDocument bracketRegression).toOption.map slots? =
      some (some [some "[3]", none, some "p2", none, some "p0"]) := by decide +kernel
  obtain ⟨s, hs, hslots⟩ := Outcome.exists_of_toOption_map hslots
  obtain ⟨layout, betas, classes, v, -, -, -, rfl⟩ := exists_of_generalRegression hs
  have hlayout : layout.slots = [some "[3]", none, some "p2", none, some "p0"] := Option.some.inj hslots
  refine ⟨_, hs, fun l hl => ?_⟩
  rcases hl with hl | hl
  · cases hl
    refine ⟨?_, ?_, ?_⟩
    · unfold LinearModel.size Slots.coefficients
      rw [hlayout]
      rfl
    · show layout.slots.parameter? 0 = _
      rw [hlayout]
      decide
    · show layout.slots.parameter? 3 = _
      rw [hlayout]
      decide
  · cases hl

/-- What the age contributes is not listed: the zero of the grade stands in its place. -/
theorem terms_listed_bracket :
    ∃ s l e, generalRegression gradeDocument bracketRegression = .ok s ∧
      (s.classifier = .logistic l ∨ s.classifier = .margin l) ∧ s.explainVector bracketVector = .ok e ∧
      ¬ l.Lists bracketVector e.terms ∧
      e.terms.find? "[3]" = some (l.contribution bracketVector 3) ∧ l.coefficients.getD 3 0.0 = 0.0 := by
  obtain ⟨s, hs, hbracket⟩ := exists_bracketRegression
  obtain ⟨l, hl, -, hfree, hterms⟩ := terms_listed (.generalRegression hs)
  obtain ⟨hsize, hshadows⟩ := hbracket l hl
  obtain ⟨e, he, hlists, hlost, -⟩ := hterms bracketVector hsize.symm
  exact ⟨s, l, e, hs, hl, he, fun h => hlists.mp h 0 (by decide) 3 (by decide) hshadows,
    hlost 0 (by decide) 3 (by decide) hshadows, (hfree 0 3 hshadows).2⟩

/-- Not every explanation of a linear model lists all contributions. -/
theorem contribution_lost :
    ¬ ∀ (d : Document) (names : List String) (s : Scorer) (l : LinearModel), Linear d names s →
      (s.classifier = .logistic l ∨ s.classifier = .margin l) → ∀ v, v.size = l.size →
        ∀ e, s.explainVector v = .ok e → l.Lists v e.terms := by
  intro h
  obtain ⟨s, hs, hbracket⟩ := exists_bracketRegression
  obtain ⟨l, hl, -, hnamed⟩ := Linear.exists_named (.generalRegression hs)
  obtain ⟨hsize, hshadows⟩ := hbracket l hl
  obtain ⟨e, he, hterms⟩ := exists_explainVector hl (v := bracketVector) hsize.symm
  have hlists := h _ _ s l (.generalRegression hs) hl bracketVector hsize.symm e he
  rw [hterms, LinearModel.lists_iff hnamed.distinct hnamed.interceptApart] at hlists
  exact hlists 0 (by decide) 3 (by decide) hshadows

end Compile

end Scoring
