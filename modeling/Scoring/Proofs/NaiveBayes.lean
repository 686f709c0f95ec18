import Scoring.NaiveBayes
import Scoring.Proofs.Arithmetic
import Scoring.Proofs.Outcome
import Scoring.Proofs.Table

/-!
# NaiveBayes — one number for each class

Everything that a compiled model holds per class has as many numbers as there are classes, so sums over the classes
lose none, and the class with the greatest likelihood is always one of them (`Fits`). A model fails for values that
it knows nothing about, and for those only.
-/

namespace Scoring

open Spec (BayesInput ClassCount ClassDistribution PairCounts)

/-! ## 1. Fitting models -/

def Evidence.Fits (classes : Nat) : Evidence → Prop
  | .categorical _ _ logProbabilities =>
    ∀ key row, logProbabilities.find? key = some row → row.length = classes
  | .gaussian _ statistics => statistics.length = classes

namespace NaiveBayes

/-- A model has a class, and one number for each class wherever it holds numbers per class. -/
structure Fits (m : NaiveBayes) : Prop where
  nonempty : 0 < m.classes.length
  logPriors : m.logPriors.length = m.classes.length
  evidence : ∀ e ∈ m.evidence, e.Fits m.classes.length

/-! ## 2. Counts -/

variable {classes : List String} {input : String}

theorem length_of_addCount {row row' : List Float} {c : ClassCount}
    (h : addCount classes input row c = .ok row') : row'.length = row.length := by
  unfold addCount at h
  rw [Outcome.bind_eq_ok] at h
  obtain ⟨i, -, hrow⟩ := h
  cases hrow
  exact List.length_modify ..

def Rows (classes : Nat) (t : Table (List Float)) : Prop :=
  ∀ key row, t.find? key = some row → row.length = classes

theorem rows_of_addPair {key : String → String} {t t' : Table (List Float)} {p : PairCounts}
    (ht : Rows classes.length t) (h : addPair classes input key t p = .ok t') :
    Rows classes.length t' := by
  unfold addPair at h
  simp only [Outcome.bind_eq_ok] at h
  obtain ⟨row, hrow, hinsert⟩ := h
  cases hinsert
  -- a key that is new starts with a zero for each class
  have hstart : ((t.find? (key p.value)).getD (classes.map fun _ => 0.0)).length = classes.length := by
    cases hfind : t.find? (key p.value) with
    | none => exact List.length_map _
    | some old => exact ht _ old hfind
  have hlength : row.length = classes.length := by
    refine Outcome.foldlM_invariant (P := fun row => row.length = classes.length) ?_ hstart hrow
    intro c _ row row' hlength hstep
    rw [length_of_addCount hstep, hlength]
  intro k row' hk
  -- the rows of the other keys stay as they are
  rw [Table.find?_insert] at hk
  split at hk
  · cases hk
    exact hlength
  · exact ht k row' hk

/-- The totals of rows that fit have one number for each class too. -/
theorem length_totals {rows : List (List Float)} {start : List Float} {n : Nat}
    (hrows : ∀ row ∈ rows, row.length = n) (hstart : start.length = n) :
    (rows.foldl (List.zipWith (· + ·)) start).length = n := by
  induction rows generalizing start with
  | nil => exact hstart
  | cons row rest ih =>
    rw [List.foldl_cons]
    apply ih fun row' hrow' => hrows row' (List.mem_cons_of_mem _ hrow')
    rw [List.length_zipWith, hstart, hrows row List.mem_cons_self, Nat.min_self]

theorem length_logProbabilities (threshold : Float) (totals : List Float) (row : Option (List Float)) :
    (logProbabilities threshold totals row).length = totals.length := by
  unfold logProbabilities
  rw [List.length_map, List.length_zipIdx]

theorem fits_of_ofPairCounts {threshold : Float} {f : Field} {b : BayesInput} {e : Evidence}
    (h : ofPairCounts classes threshold f b = .ok e) : e.Fits classes.length := by
  unfold ofPairCounts at h
  simp only [Outcome.bind_eq_ok] at h
  obtain ⟨counts, hcounts, h⟩ := h
  have hrows : Rows classes.length counts := by
    refine Outcome.foldlM_invariant (P := Rows classes.length) ?_ ?_ hcounts
    · intro p _ t t' ht hstep
      exact rows_of_addPair ht hstep
    · intro k row hk
      cases hk
  split at h
  · cases h
  · cases h
    intro key row hrow
    obtain ⟨k, -, hk⟩ := List.mem_map.mp (Table.mem_of_find?_ofList hrow)
    cases hk
    -- a row of probabilities is as long as the totals, and these as long as the rows
    rw [length_logProbabilities]
    refine length_totals (fun row hrow => ?_) (List.length_map _)
    obtain ⟨⟨k, row'⟩, hentry, rfl⟩ := List.mem_map.mp hrow
    exact hrows k row' (Table.find?_eq_some_iff.mpr hentry)

/-! ## 3. Normal distributions -/

theorem length_of_addStatistic {row row' : List (Option (Float × Float))} {s : ClassDistribution}
    (h : addStatistic classes input row s = .ok row') : row'.length = row.length := by
  unfold addStatistic at h
  rw [Outcome.bind_eq_ok] at h
  obtain ⟨i, -, h⟩ := h
  split at h
  · split at h
    · cases h
    · cases h
      exact List.length_set
  · cases h

theorem mapM_id_eq_some {α : Type} {xs : List (Option α)} {ys : List α} (h : xs.mapM id = some ys) :
    ys.map some = xs := by
  induction xs generalizing ys with
  | nil =>
    cases h
    rfl
  | cons x rest ih =>
    rw [List.mapM_cons] at h
    simp only [Option.bind_eq_bind, Option.bind_eq_some_iff, id_eq] at h
    obtain ⟨a, rfl, as, hrest, hys⟩ := h
    cases hys
    rw [List.map_cons, ih hrest]

theorem fits_of_ofStatistics {f : Field} {b : BayesInput} {e : Evidence}
    (h : ofStatistics classes f b = .ok e) : e.Fits classes.length := by
  unfold ofStatistics at h
  rw [Outcome.bind_eq_ok] at h
  obtain ⟨row, hrow, h⟩ := h
  have hlength : row.length = classes.length := by
    refine Outcome.foldlM_invariant (P := fun row => row.length = classes.length) ?_
      (List.length_map _) hrow
    intro s _ row row' hlength hstep
    rw [length_of_addStatistic hstep, hlength]
  split at h
  · rename_i statistics hstatistics
    cases h
    have hrow := congrArg List.length (mapM_id_eq_some hstatistics)
    rw [List.length_map] at hrow
    exact hrow.trans hlength
  · cases h

/-! ## 4. Models -/

theorem fits_of_ofInput {threshold : Float} {i : Intake} {b : BayesInput} {e : Evidence}
    (h : ofInput classes threshold i b = .ok e) : e.Fits classes.length := by
  unfold ofInput at h
  split at h
  · cases h
  · split at h
    · exact fits_of_ofPairCounts h
    · split at h
      · exact fits_of_ofStatistics h
      · cases h

/-- A model is made from the evidence of its inputs once there are classes, none of them named twice. -/
theorem eq_of_ofSpec {m : Spec.NaiveBayes} {i : Intake} {b : NaiveBayes} (h : ofSpec m i = .ok b) :
    m.output.counts ≠ [] ∧
    (m.output.counts.map (·.value)).eraseDups.length = (m.output.counts.map (·.value)).length ∧
    List.Forall₂ (fun input e => ofInput (m.output.counts.map (·.value)) m.threshold i input = .ok e)
      m.inputs b.evidence ∧
    b.classes = m.output.counts.map (·.value) ∧ b.threshold = m.threshold ∧ b.fields = i.names ∧
    b.logPriors = m.output.counts.map fun c =>
      Float.log (c.count / Arithmetic.sum (m.output.counts.map (·.count))) := by
  unfold ofSpec at h
  simp only at h
  split at h
  · cases h
  · rename_i hcounts
    split at h
    · cases h
    · rename_i hlength
      split at h
      · cases h
      · rw [Outcome.bind_eq_ok] at h
        obtain ⟨evidence, hevidence, hb⟩ := h
        cases hb
        rw [Outcome.mapM_eq_ok] at hevidence
        exact ⟨by simpa using hcounts, not_not.mp hlength, hevidence, rfl, rfl, rfl, rfl⟩

theorem fits_of_ofSpec {m : Spec.NaiveBayes} {i : Intake} {b : NaiveBayes} (h : ofSpec m i = .ok b) :
    b.Fits ∧ b.fields = i.names := by
  obtain ⟨hcounts, -, hevidence, hclasses, -, hfields, hpriors⟩ := eq_of_ofSpec h
  refine ⟨⟨?_, ?_, fun e he => ?_⟩, hfields⟩
  · rw [hclasses, List.length_map]
    exact List.length_pos_iff.mpr hcounts
  · rw [hpriors, hclasses, List.length_map, List.length_map]
  · obtain ⟨input, -, hinput⟩ := Outcome.exists_left_of_forall₂ hevidence he
    rw [hclasses]
    exact fits_of_ofInput hinput

/-! ## 5. Scores -/

/-- An input leaves one number for each class. -/
theorem length_of_addEvidence {floor : Float} {o : Observation} {totals totals' : List Float}
    {e : Evidence} (he : e.Fits totals.length) (h : addEvidence floor o totals e = .ok totals') :
    totals'.length = totals.length := by
  cases e with
  | categorical field type logProbabilities =>
    simp only [addEvidence] at h
    split at h
    · cases h
      rfl
    · split at h
      · rename_i row hrow
        cases h
        rw [List.length_zipWith, he _ row hrow, Nat.min_self]
      · cases h
  | gaussian field statistics =>
    have hlength : statistics.length = totals.length := he
    simp only [addEvidence] at h
    split at h
    · cases h
      rfl
    · split at h
      · cases h
        rw [List.length_zipWith, hlength, Nat.min_self]
      · cases h

theorem length_logLikelihoods {m : NaiveBayes} (hm : m.Fits) {o : Observation} {totals : List Float}
    (h : m.logLikelihoods o = .ok totals) : totals.length = m.classes.length := by
  unfold logLikelihoods at h
  rw [Outcome.bind_eq_ok] at h
  obtain ⟨_, -, h⟩ := h
  refine Outcome.foldlM_invariant (P := fun totals => totals.length = m.classes.length) ?_ hm.logPriors h
  intro e he totals totals' hlength hstep
  rw [length_of_addEvidence (hlength ▸ hm.evidence e he) hstep, hlength]

inductive Unknown (o : Observation) : Evidence → Mismatch → Prop
  | unknownValue {field : String} {type : Spec.DataType} {logProbabilities : Table (List Float)}
      {v : Scalar} (shown : o.value? field = some v)
      (unlisted : logProbabilities.find? (v.key type) = none) :
      Unknown o (.categorical field type logProbabilities) (.unknownValue v field)
  | notNumeric {field : String} {statistics : List (Float × Float)} {v : Scalar}
      (shown : o.value? field = some v) (text : v.toFloat? = none) :
      Unknown o (.gaussian field statistics) (.notNumeric v field)

theorem unknown_of_addEvidence {floor : Float} {o : Observation} {totals : List Float} {e : Evidence}
    {fault : Fault} (h : addEvidence floor o totals e = .error fault) :
    ∃ cause, fault = .mismatch cause ∧ Unknown o e cause := by
  cases e with
  | categorical field type logProbabilities =>
    simp only [addEvidence] at h
    split at h
    · cases h
    · rename_i v hv
      split at h
      · cases h
      · rename_i hrow
        cases h
        exact ⟨_, rfl, .unknownValue hv hrow⟩
  | gaussian field statistics =>
    simp only [addEvidence] at h
    split at h
    · cases h
    · rename_i v hv
      split at h
      · cases h
      · rename_i hx
        cases h
        exact ⟨_, rfl, .notNumeric hv hx⟩

/-- On an observation of its fields a model fails only for a value that an input knows nothing about. -/
theorem unknown_of_logLikelihoods {m : NaiveBayes} {o : Observation} (ho : o.check m.fields = .ok ())
    {fault : Fault} (h : m.logLikelihoods o = .error fault) :
    ∃ e ∈ m.evidence, ∃ cause, fault = .mismatch cause ∧ Unknown o e cause := by
  unfold logLikelihoods at h
  rw [ho, Outcome.ok_bind] at h
  obtain ⟨totals, e, he, herror⟩ := Outcome.exists_of_foldlM_eq_error h
  exact ⟨e, he, unknown_of_addEvidence herror⟩

theorem classify_eq (m : NaiveBayes) (o : Observation) :
    m.classify o = (m.explain o).map (·.label) := by
  unfold classify explain
  cases m.logLikelihoods o <;> rfl

end NaiveBayes

end Scoring
