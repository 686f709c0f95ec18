import Scoring.Proofs.Field.Observation
import Scoring.Proofs.Layout.Span
import Scoring.Proofs.NaiveBayes.Cases

/-!
# Likelihood — likelihoods by their definition

A compiled model holds tables of logarithms. `Spec.NaiveBayes.logLikelihood?` knows no tables: it takes the counts of a
description that belong to a key and a class, divides, and takes the logarithm, one class at a time. Both give every
class the same number (`likelihoods_of_cases`).
-/

namespace Scoring

open Spec (BayesInput ClassCount ClassDistribution PairCounts)

/-! ## 1. Likelihoods of a description -/

namespace Spec.BayesInput

/-- The keys that an input knows: those of the categories that its field declares, else those that are counted. -/
def knownKeys (b : BayesInput) (f : Field) : List String :=
  if f.optype = .categorical ∧ f.categories ≠ [] then f.categories.map f.keyOf else b.countedKeys f.keyOf

/-- An input that counts knows values by their keys, and any other knows all numbers. -/
def Knows (b : BayesInput) (f : Field) (v : Scalar) : Prop :=
  if b.pairCounts ≠ [] then v.key f.dataType ∈ b.knownKeys f else ∃ x, v.toFloat? = some x

/-- What a value says about a class: the logarithm of the share of its key, raised to the threshold, or that of the
normal density, which is raised to the threshold's. -/
def logEvidence? (b : BayesInput) (threshold : Float) (f : Field) (v : Scalar) (c : String) : Option Float :=
  if b.pairCounts ≠ [] then
    let p := b.share f.keyOf (v.key f.dataType) c
    some (Float.log (if p < threshold then threshold else p))
  else do
    let (mean, variance) ← b.normal? c
    let x ← v.toFloat?
    some (Arithmetic.maxNumber (Link.gaussianLogDensity x mean variance) (Float.log threshold))

end Spec.BayesInput

namespace Spec.NaiveBayes

/-- The likelihood of a class after one more input; a missing value leaves it as it is. -/
def weigh? (m : Spec.NaiveBayes) (i : Intake) (o : Observation) (c : String) (total : Float)
    (b : BayesInput) : Option Float := do
  let f ← i.find? b.field
  match o.value? f.name with
  | none => some total
  | some v => (b.logEvidence? m.threshold f v c).map (total + ·)

/-- The logarithm of the likelihood of a class: that of its share among all cases, and what the inputs add to it. -/
def logLikelihood? (m : Spec.NaiveBayes) (i : Intake) (o : Observation) (c : ClassCount) : Option Float :=
  m.inputs.foldlM (m.weigh? i o c.value)
    (Float.log (c.count / Arithmetic.sum (m.output.counts.map (·.count))))

end Spec.NaiveBayes

namespace NaiveBayes

/-! ## 2. Inputs -/

variable {classes : List String}

/-- What is compiled of an input holds what the input says about its field. -/
inductive Tells (classes : List String) (threshold : Float) (b : BayesInput) (f : Field) : Evidence → Prop
  | counts {t : Table (List Float)} (counted : b.pairCounts ≠ [])
      (names : ∀ k, k ∈ t.names ↔ k ∈ b.knownKeys f)
      (rows : ∀ k row, t.find? k = some row → row = classes.map fun c =>
        Float.log (floored threshold (b.share f.keyOf k c))) :
      Tells classes threshold b f (.categorical f.name f.dataType t)
  | normal {statistics : List (Float × Float)} (uncounted : b.pairCounts = [])
      (listed : statistics.map some = classes.map b.normal?) :
      Tells classes threshold b f (.gaussian f.name statistics)

theorem tells_of_ofPairCounts (hclasses : classes.Nodup) {threshold : Float} {f : Field} {b : BayesInput}
    {e : Evidence} (hcounted : b.pairCounts ≠ []) (h : ofPairCounts classes threshold f b = .ok e) :
    Tells classes threshold b f e := by
  unfold ofPairCounts at h
  simp only [Outcome.bind_eq_ok] at h
  obtain ⟨counts, hcounts, h⟩ := h
  have htables : Tallies classes counts (b.cases f.keyOf) ∧ counts.names = b.countedKeys f.keyOf :=
    tallies_cases hclasses hcounts
  obtain ⟨htallies, hnames⟩ := htables
  split at h
  · cases h
  · cases h
    have hkeys : (if f.optype == .categorical && !f.categories.isEmpty then f.categories.map f.keyOf
        else counts.names) = b.knownKeys f := by
      unfold Spec.BayesInput.knownKeys
      rw [hnames]
      simp
    refine .counts hcounted (fun k => ?_) fun k row hrow => ?_
    · rw [Table.mem_names_ofList, List.map_map, ← hkeys]
      exact Iff.of_eq (congrArg (k ∈ ·) (List.map_id'' (fun _ => rfl) _))
    · obtain ⟨k', -, hk'⟩ := List.mem_map.mp (Table.mem_of_find?_ofList hrow)
      cases hk'
      rw [totals_of_tallies htallies, hnames, logProbabilities_eq (htallies k)]
      rfl

theorem tells_of_ofStatistics (hclasses : classes.Nodup) {threshold : Float} {f : Field} {b : BayesInput}
    {e : Evidence} (huncounted : b.pairCounts = []) (h : ofStatistics classes f b = .ok e) :
    Tells classes threshold b f e := by
  unfold ofStatistics at h
  rw [Outcome.bind_eq_ok] at h
  obtain ⟨row, hrow, h⟩ := h
  split at h
  · rename_i statistics hstatistics
    cases h
    refine .normal huncounted ?_
    rw [mapM_id_eq_some hstatistics, foldlM_addStatistic hclasses hrow]
    refine List.map_congr_left fun c _ => ?_
    exact Option.or_none
  · cases h

theorem tells_of_ofInput (hclasses : classes.Nodup) {threshold : Float} {i : Intake} {b : BayesInput}
    {e : Evidence} (h : ofInput classes threshold i b = .ok e) :
    ∃ f, i.find? b.field = some f ∧ Tells classes threshold b f e := by
  unfold ofInput at h
  split at h
  · cases h
  · rename_i f hf
    refine ⟨f, hf, ?_⟩
    split at h
    · rename_i hcounted
      exact tells_of_ofPairCounts hclasses (by simpa using hcounted) h
    · rename_i hcounted
      split at h
      · exact tells_of_ofStatistics hclasses (by simpa using hcounted) h
      · cases h

/-! ## 3. Scores -/

variable {m : Spec.NaiveBayes} {i : Intake} {o : Observation} {b : BayesInput} {f : Field} {e : Evidence}

/-- An input can be added exactly where it knows the value, whatever the sums so far. -/
theorem exists_addEvidence_iff {threshold floor : Float} (he : Tells classes threshold b f e)
    (totals : List Float) :
    (∃ totals', addEvidence floor o totals e = .ok totals') ↔
      ∀ v, o.value? f.name = some v → b.Knows f v := by
  unfold Spec.BayesInput.Knows
  cases he with
  | counts counted names rows =>
    rename_i t
    simp only [addEvidence]
    cases hv : o.value? f.name with
    | none => simp
    | some v =>
      simp only [Option.some.injEq, forall_eq', if_pos counted, ← names]
      cases hrow : t.find? (v.key f.dataType) with
      | none => simpa using Table.find?_eq_none_iff.mp hrow
      | some row =>
        have hmem := Table.contains_iff_mem_names.mp (show t.contains (v.key f.dataType) = true by
          unfold Table.contains
          rw [hrow]
          rfl)
        simpa using hmem
  | normal uncounted listed =>
    simp only [addEvidence]
    cases hv : o.value? f.name with
    | none => simp
    | some v =>
      simp only [Option.some.injEq, forall_eq', uncounted, ne_eq, not_true_eq_false, if_false]
      cases v.toFloat? <;> simp

theorem addEvidence_of_missing {threshold floor : Float} (he : Tells classes threshold b f e)
    (hv : o.value? f.name = none) (totals : List Float) : addEvidence floor o totals e = .ok totals := by
  cases he with
  | counts counted names rows => simp only [addEvidence, hv]
  | normal uncounted listed => simp only [addEvidence, hv]

/-- A value adds to each class what it says about it. -/
theorem logEvidence?_of_addEvidence {cs : List ClassCount} {threshold : Float}
    (he : Tells (cs.map (·.value)) threshold b f e) {v : Scalar} (hv : o.value? f.name = some v)
    {g : ClassCount → Float} {totals : List Float}
    (h : addEvidence (Float.log threshold) o (cs.map g) e = .ok totals) :
    ∃ x : ClassCount → Float, totals = cs.map (fun c => g c + x c) ∧
      ∀ c ∈ cs, b.logEvidence? threshold f v c.value = some (x c) := by
  cases he with
  | counts counted names rows =>
    simp only [addEvidence, hv] at h
    split at h
    · rename_i row hrow
      cases h
      refine ⟨fun c => Float.log (floored threshold (b.share f.keyOf (v.key f.dataType) c.value)), ?_,
        fun c _ => ?_⟩
      · rw [rows _ row hrow, List.map_map, List.zipWith_map, List.zipWith_self]
        rfl
      · simp only [Spec.BayesInput.logEvidence?, if_pos counted]
        rfl
    · cases h
  | normal uncounted listed =>
    simp only [addEvidence, hv] at h
    split at h
    · rename_i number hnumber
      cases h
      rw [List.map_map] at listed
      obtain ⟨s, rfl, hs⟩ := exists_eq_map_of_map_some listed
      refine ⟨fun c => Arithmetic.maxNumber (Link.gaussianLogDensity number (s c).1 (s c).2)
        (Float.log threshold), ?_, fun c hc => ?_⟩
      · rw [List.zipWith_map, List.zipWith_self]
      · have hnormal : b.normal? c.value = some (s c) := hs c hc
        simp only [Spec.BayesInput.logEvidence?, if_neg (not_not.mpr uncounted), hnormal, hnumber]
        rfl
    · cases h

theorem weigh?_of_addEvidence {cs : List ClassCount} (hf : i.find? b.field = some f)
    (he : Tells (cs.map (·.value)) m.threshold b f e) {g : ClassCount → Float} {totals : List Float}
    (h : addEvidence (Float.log m.threshold) o (cs.map g) e = .ok totals) :
    ∃ g', totals = cs.map g' ∧ ∀ c ∈ cs, m.weigh? i o c.value (g c) b = some (g' c) := by
  unfold Spec.NaiveBayes.weigh?
  simp only [hf, Option.bind_eq_bind, Option.bind_some]
  cases hv : o.value? f.name with
  | none =>
    rw [addEvidence_of_missing he hv] at h
    cases h
    exact ⟨g, rfl, fun c _ => rfl⟩
  | some v =>
    obtain ⟨x, htotals, hx⟩ := logEvidence?_of_addEvidence he hv h
    refine ⟨fun c => g c + x c, htotals, fun c hc => ?_⟩
    simp only [hx c hc, Option.map_some]

/-- What a list of inputs adds to each class is what they say about it one after the other. -/
theorem foldlM_weigh?_of_foldlM {cs : List ClassCount} {bs : List BayesInput} {es : List Evidence}
    (hes : List.Forall₂ (fun b e => ∃ f, i.find? b.field = some f ∧
      Tells (cs.map (·.value)) m.threshold b f e) bs es)
    {g : ClassCount → Float} {totals : List Float}
    (h : es.foldlM (addEvidence (Float.log m.threshold) o) (cs.map g) = .ok totals) :
    totals.map some = cs.map fun c => bs.foldlM (m.weigh? i o c.value) (g c) := by
  induction hes generalizing g with
  | nil =>
    cases h
    rw [List.map_map]
    rfl
  | @cons b e bs es he _ ih =>
    obtain ⟨f, hf, he⟩ := he
    rw [List.foldlM_cons, Outcome.bind_eq_ok] at h
    obtain ⟨totals', hstep, hrest⟩ := h
    obtain ⟨g', rfl, hg'⟩ := weigh?_of_addEvidence hf he hstep
    rw [ih hrest]
    refine List.map_congr_left fun c hc => ?_
    rw [List.foldlM_cons, hg' c hc]
    rfl

/-- A list of inputs can be added exactly where each of them knows its value. -/
theorem exists_foldlM_addEvidence_iff {threshold floor : Float} {bs : List BayesInput}
    {es : List Evidence} (hes : List.Forall₂ (fun b e => ∃ f, i.find? b.field = some f ∧
      Tells classes threshold b f e) bs es) (totals : List Float) :
    (∃ totals', es.foldlM (addEvidence floor o) totals = .ok totals') ↔
      ∀ b ∈ bs, ∀ f v, i.find? b.field = some f → o.value? f.name = some v → b.Knows f v := by
  induction hes generalizing totals with
  | nil => simp [pure, Except.pure]
  | @cons b e bs es he _ ih =>
    obtain ⟨f, hf, he⟩ := he
    have hfirst : (∃ totals', addEvidence floor o totals e = .ok totals') ↔
        ∀ v, o.value? f.name = some v → b.Knows f v := exists_addEvidence_iff he totals
    simp only [List.foldlM_cons, Outcome.bind_eq_ok]
    rw [List.forall_mem_cons]
    constructor
    · rintro ⟨totals', first, hstep, hrest⟩
      refine ⟨fun f' v hf' hv => ?_, (ih first).mp ⟨totals', hrest⟩⟩
      cases hf.symm.trans hf'
      exact hfirst.mp ⟨first, hstep⟩ v hv
    · rintro ⟨hb, hbs⟩
      obtain ⟨first, hstep⟩ := hfirst.mpr fun v hv => hb f v hf hv
      obtain ⟨totals', hrest⟩ := (ih first).mpr hbs
      exact ⟨totals', first, hstep, hrest⟩

/-- A compiled model gives every class the likelihood of the description. It does so for an observation of its fields
exactly when every input whose value is there knows the value. -/
theorem likelihoods_of_cases {bayes : NaiveBayes} (h : ofSpec m i = .ok bayes)
    (ho : ∀ n, o.contains n = i.contains n) :
    ((∃ totals, bayes.logLikelihoods o = .ok totals) ↔
      ∀ b ∈ m.inputs, ∀ f v, i.find? b.field = some f → o.value? f.name = some v → b.Knows f v) ∧
    ∀ totals, bayes.logLikelihoods o = .ok totals →
      totals.map some = m.output.counts.map (m.logLikelihood? i o) := by
  obtain ⟨-, hlength, hinputs, -, hthreshold, hfields, hpriors⟩ := eq_of_ofSpec h
  have hevidence := hinputs.imp fun _ _ he => tells_of_ofInput (nodup_of_length_eraseDups hlength) he
  have hcheck : o.check bayes.fields = .ok () := by
    rw [hfields]
    exact Observation.check_eq_ok (Table.names_eq_of_contains_iff ho)
  unfold logLikelihoods
  rw [hcheck, Outcome.ok_bind, hthreshold, hpriors]
  exact ⟨exists_foldlM_addEvidence_iff hevidence _, fun totals => foldlM_weigh?_of_foldlM hevidence⟩

/-! Children are counted under two spellings of one, nobody is counted with three of them, the weights are listed with
the second class first, and the color is missing. -/

def familyModel : Spec.NaiveBayes where
  name := none
  function := .classification
  threshold := 0.001
  schema := ⟨[]⟩
  transformations := ⟨[]⟩
  inputs := [
    ⟨"children", [⟨"1", [⟨"no", 3.0⟩, ⟨"yes", 1.0⟩]⟩, ⟨"2", [⟨"yes", 6.0⟩]⟩, ⟨" 1.0", [⟨"no", 2.0⟩]⟩], []⟩,
    ⟨"weight", [], [⟨"yes", .gaussian 70.0 9.0⟩, ⟨"no", .gaussian 60.0 4.0⟩, ⟨"no", .gaussian 62.0 4.0⟩]⟩,
    ⟨"color", [⟨"red", [⟨"no", 1.0⟩]⟩], []⟩]
  output := ⟨"y", [⟨"no", 5.0⟩, ⟨"yes", 7.0⟩]⟩

def familyIntake : Intake :=
  Table.ofList [
    ("children", ⟨"children", .categorical "children" .integer ["1", "2", "3"], .categorical, .integer, []⟩),
    ("weight", ⟨"weight", .continuous "weight" .double, .continuous, .double, []⟩),
    ("color", ⟨"color", .categorical "color" .string [], .categorical, .string, []⟩)]

def familyObservation : Observation :=
  Table.ofList [("weight", some (.double 64.0)), ("children", some (.double 1.0)), ("color", none)]

theorem likelihoods_of_cases_family : ∃ bayes totals, ofSpec familyModel familyIntake = .ok bayes ∧
    (∀ n, familyObservation.contains n = familyIntake.contains n) ∧
    bayes.logLikelihoods familyObservation = .ok totals ∧
    totals.map some = familyModel.output.counts.map (familyModel.logLikelihood? familyIntake familyObservation) ∧
    ∀ b ∈ familyModel.inputs, ∀ f v, familyIntake.find? b.field = some f →
      familyObservation.value? f.name = some v → b.Knows f v := by
  have hok : (ofSpec familyModel familyIntake).toOption.map
      (fun bayes => (bayes.logLikelihoods familyObservation).isOk) = some true := by decide +kernel
  have hfields : familyObservation.names = familyIntake.names := by decide +kernel
  have hcontains : ∀ n, familyObservation.contains n = familyIntake.contains n := by
    intro n
    rw [Bool.eq_iff_iff, Table.contains_iff_mem_names, Table.contains_iff_mem_names, hfields]
  obtain ⟨bayes, hbayes, hok⟩ := Outcome.exists_of_toOption_map hok
  obtain ⟨hknows, htotals⟩ := likelihoods_of_cases hbayes hcontains
  cases hlikelihoods : bayes.logLikelihoods familyObservation with
  | error e =>
    rw [hlikelihoods] at hok
    cases hok
  | ok totals =>
    exact ⟨bayes, totals, hbayes, hcontains, hlikelihoods, htotals totals hlikelihoods,
      hknows.mp ⟨totals, hlikelihoods⟩⟩

end NaiveBayes

end Scoring
