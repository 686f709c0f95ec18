import Scoring.Proofs.Condition.Operand
import Scoring.Proofs.Field.Resolution
import Scoring.Proofs.NaiveBayes.Likelihood

/-!
# Normal — normal distributions of fields that hold texts

An observation is scored up to the first input that does not know its value (`logLikelihoods_eq_error`). A field of
numeric type is observed as a number, which an input with normal distributions always knows. The compiler does not look
at the type of the field, so such an input may be about texts, and then every value fails (`notNumeric_iff`).
-/

namespace Scoring

open Spec (BayesInput)

def Spec.BayesInput.complaint (b : BayesInput) (f : Field) (v : Scalar) : Mismatch :=
  if b.pairCounts ≠ [] then .unknownValue v f.name else .notNumeric v f.name

def Spec.BayesInput.AllKnow (bs : List BayesInput) (i : Intake) (o : Observation) : Prop :=
  ∀ b ∈ bs, ∀ f v, i.find? b.field = some f → o.value? f.name = some v → b.Knows f v

namespace NaiveBayes

/-! ## 1. The first input that fails -/

variable {classes : List String} {m : Spec.NaiveBayes} {bayes : NaiveBayes} {i : Intake} {r : Record} {o : Observation}
  {b : BayesInput} {f : Field} {e : Evidence} {fault : Fault}

theorem addEvidence_eq_error {threshold floor : Float} (he : Tells classes threshold b f e) (totals : List Float) :
    addEvidence floor o totals e = .error fault ↔
      ∃ v, o.value? f.name = some v ∧ ¬ b.Knows f v ∧ fault = .mismatch (b.complaint f v) := by
  unfold Spec.BayesInput.Knows Spec.BayesInput.complaint
  cases he with
  | counts counted names rows =>
    rename_i t
    simp only [addEvidence, if_pos counted]
    cases hv : o.value? f.name with
    | none => simp
    | some v =>
      simp only [Option.some.injEq, exists_eq_left', ← names]
      cases hrow : t.find? (v.key f.dataType) with
      | none => simpa [Table.find?_eq_none_iff.mp hrow] using eq_comm
      | some row =>
        have hmem : v.key f.dataType ∈ t.names := by
          rw [← Table.contains_iff_mem_names, Table.contains, hrow]
          rfl
        simp [hmem]
  | normal uncounted listed =>
    simp only [addEvidence, uncounted, ne_eq, not_true_eq_false, if_false]
    cases hv : o.value? f.name with
    | none => simp
    | some v =>
      simp only [Option.some.injEq, exists_eq_left']
      cases hx : v.toFloat? with
      | none => simpa using eq_comm
      | some x => simp

/-- Inputs are added up to the first one that does not know its value. -/
theorem foldlM_addEvidence_eq_error {threshold floor : Float} {bs : List BayesInput} {es : List Evidence}
    (hes : List.Forall₂ (fun b e => ∃ f, i.find? b.field = some f ∧ Tells classes threshold b f e) bs es)
    (totals : List Float) :
    es.foldlM (addEvidence floor o) totals = .error fault ↔
      ∃ before b after f v, bs = before ++ b :: after ∧ Spec.BayesInput.AllKnow before i o ∧
        i.find? b.field = some f ∧ o.value? f.name = some v ∧ ¬ b.Knows f v ∧ fault = .mismatch (b.complaint f v) := by
  induction hes generalizing totals with
  | nil => simp [pure, Except.pure]
  | @cons b e bs es he hes ih =>
    obtain ⟨f, hf, he⟩ := he
    have hknown : Spec.BayesInput.AllKnow [b] i o ↔ ∃ totals', addEvidence floor o totals e = .ok totals' := by
      rw [exists_addEvidence_iff he, Spec.BayesInput.AllKnow, List.forall_mem_singleton]
      constructor
      · exact fun h v => h f v hf
      · intro h g v hg
        cases hf.symm.trans hg
        exact h v
    rw [List.foldlM_cons, Outcome.bind_eq_error]
    constructor
    · rintro (herror | ⟨next, hnext, hrest⟩)
      · obtain ⟨v, hv, hunknown, rfl⟩ := (addEvidence_eq_error he totals).mp herror
        exact ⟨[], b, bs, f, v, rfl, fun _ h => absurd h List.not_mem_nil, hf, hv, hunknown, rfl⟩
      · obtain ⟨before, b', after, g, v, rfl, hbefore, hfail⟩ := (ih next).mp hrest
        refine ⟨b :: before, b', after, g, v, rfl, List.forall_mem_cons.mpr ⟨?_, hbefore⟩, hfail⟩
        exact hknown.mpr ⟨next, hnext⟩ b (List.mem_singleton_self b)
    · rintro ⟨before, b', after, g, v, hbs, hbefore, hg, hv, hunknown, rfl⟩
      cases before with
      | nil =>
        cases hbs
        cases hf.symm.trans hg
        exact .inl ((addEvidence_eq_error he totals).mpr ⟨v, hv, hunknown, rfl⟩)
      | cons b'' before =>
        cases hbs
        obtain ⟨hfirst, hbefore⟩ := List.forall_mem_cons.mp hbefore
        obtain ⟨next, hnext⟩ := hknown.mp (List.forall_mem_singleton.mpr hfirst)
        exact .inr ⟨next, hnext, (ih next).mpr ⟨before, b', after, g, v, rfl, hbefore, hg, hv, hunknown, rfl⟩⟩

/-- The likelihoods of an observation fail at the first input that does not know its value. -/
theorem logLikelihoods_eq_error (h : ofSpec m i = .ok bayes) (ho : i.observe r = .ok o) :
    bayes.logLikelihoods o = .error fault ↔
      ∃ before b after f v, m.inputs = before ++ b :: after ∧ Spec.BayesInput.AllKnow before i o ∧
        i.find? b.field = some f ∧ o.value? f.name = some v ∧ ¬ b.Knows f v ∧ fault = .mismatch (b.complaint f v) := by
  obtain ⟨-, hlength, hinputs, -, -, hfields, -⟩ := eq_of_ofSpec h
  have hevidence := hinputs.imp fun _ _ he => tells_of_ofInput (nodup_of_length_eraseDups hlength) he
  have hcheck : o.check bayes.fields = .ok () := by
    rw [hfields]
    exact Observation.check_eq_ok (Intake.names_of_observe ho)
  unfold logLikelihoods
  rw [hcheck, Outcome.ok_bind]
  exact foldlM_addEvidence_eq_error hevidence _

/-! ## 2. Values of normal distributions -/

/-- An input with normal distributions knows what is observed of a field if and only if the field holds numbers. -/
theorem knows_iff_isNumeric (ho : i.observe r = .ok o) {name : String} (hf : i.find? name = some f) {v : Scalar}
    (hv : o.value? name = some v) (huncounted : b.pairCounts = []) :
    b.Knows f v ↔ f.dataType.isNumeric = true := by
  unfold Spec.BayesInput.Knows
  rw [if_neg (not_not.mpr huncounted)]
  cases Intake.isOf_of_observe ho hf hv with
  | number numeric x => exact iff_of_true ⟨x, rfl⟩ numeric
  | text other t =>
    rw [other]
    exact iff_of_false (fun ⟨_, hx⟩ => by cases hx) Bool.false_ne_true

/-- The likelihoods of what an intake observes fail for a value that is no number just where the first input to fail is
one with normal distributions of a field whose type is not numeric; there each value fails. So they never do if all
normal distributions are of fields of numeric type. -/
theorem notNumeric_iff {s : Scope} {names : List String} (hi : Intake.ofNames s names = .ok i)
    (h : ofSpec m i = .ok bayes) (ho : i.observe r = .ok o) :
    (∀ v n, bayes.logLikelihoods o = .error (.mismatch (.notNumeric v n)) ↔
      ∃ before b after f, m.inputs = before ++ b :: after ∧ Spec.BayesInput.AllKnow before i o ∧ b.field = n ∧
        b.pairCounts = [] ∧ i.find? n = some f ∧ f.dataType.isNumeric = false ∧ o.value? n = some v) ∧
      ((∀ b ∈ m.inputs, ∀ f, b.pairCounts = [] → i.find? b.field = some f → f.dataType.isNumeric = true) →
        ∀ v n, bayes.logLikelihoods o ≠ .error (.mismatch (.notNumeric v n))) := by
  have hiff : ∀ v n, bayes.logLikelihoods o = .error (.mismatch (.notNumeric v n)) ↔
      ∃ before b after f, m.inputs = before ++ b :: after ∧ Spec.BayesInput.AllKnow before i o ∧ b.field = n ∧
        b.pairCounts = [] ∧ i.find? n = some f ∧ f.dataType.isNumeric = false ∧ o.value? n = some v := by
    intro v n
    rw [logLikelihoods_eq_error h ho]
    constructor
    · rintro ⟨before, b, after, f, w, hinputs, hbefore, hf, hw, hunknown, hfault⟩
      have hname := Intake.name_of_find? hi hf
      rw [hname] at hw
      unfold Spec.BayesInput.complaint at hfault
      by_cases hcounted : b.pairCounts = []
      · rw [if_neg (not_not.mpr hcounted)] at hfault
        cases hfault
        rw [knows_iff_isNumeric ho hf hw hcounted, Bool.not_eq_true] at hunknown
        rw [hname]
        exact ⟨before, b, after, f, hinputs, hbefore, rfl, hcounted, hf, hunknown, hw⟩
      · rw [if_pos hcounted] at hfault
        cases hfault
    · rintro ⟨before, b, after, f, hinputs, hbefore, rfl, hcounted, hf, hother, hv⟩
      have hname := Intake.name_of_find? hi hf
      refine ⟨before, b, after, f, v, hinputs, hbefore, hf, hname ▸ hv, ?_, ?_⟩
      · rw [knows_iff_isNumeric ho hf hv hcounted, hother]
        exact Bool.false_ne_true
      · rw [Spec.BayesInput.complaint, if_neg (not_not.mpr hcounted), hname]
  refine ⟨hiff, fun hnumeric v n herror => ?_⟩
  obtain ⟨before, b, after, f, hinputs, -, rfl, hcounted, hf, hother, -⟩ := (hiff v n).mp herror
  have hmem : b ∈ m.inputs := hinputs ▸ List.mem_append_right before List.mem_cons_self
  rw [hnumeric b hmem f hcounted hf] at hother
  cases hother

/-- A field of numbers, and one of texts that is declared as continuous too. -/
def bodyScope : Scope :=
  ⟨⟨[.continuous "weight" .double, .continuous "color" .string]⟩, [], none⟩

def measuredModel (field : String) : Spec.NaiveBayes where
  name := none
  function := .classification
  threshold := 0.001
  schema := ⟨[]⟩
  transformations := ⟨[]⟩
  inputs := [⟨field, [], [⟨"no", .gaussian 60.0 4.0⟩, ⟨"yes", .gaussian 70.0 9.0⟩]⟩]
  output := ⟨"y", [⟨"no", 5.0⟩, ⟨"yes", 7.0⟩]⟩

def weightField : Field :=
  ⟨"weight", .continuous "weight" .double, .continuous, .double, []⟩

def colorField : Field :=
  ⟨"color", .continuous "color" .string, .continuous, .string, []⟩

theorem resolve_weight : bodyScope.resolve "weight" = .ok weightField := by
  have hraw : bodyScope.dictionary.field? "weight" = some weightField.raw := rfl
  rw [Scope.resolve_of_field? hraw]
  rfl

theorem resolve_color : bodyScope.resolve "color" = .ok colorField := by
  have hraw : bodyScope.dictionary.field? "color" = some colorField.raw := rfl
  rw [Scope.resolve_of_field? hraw]
  rfl

theorem notNumeric_iff_weight : ∃ i bayes o, Intake.ofNames bodyScope ["weight"] = .ok i ∧
    ofSpec (measuredModel "weight") i = .ok bayes ∧
    i.observe (.ofJson (.object [("weight", .string "64")])) = .ok o ∧
    ∀ v n, bayes.logLikelihoods o ≠ .error (.mismatch (.notNumeric v n)) := by
  have hi := Intake.ofNames_singleton resolve_weight
  obtain ⟨bayes, hbayes⟩ := Outcome.exists_of_isOk
    (show (ofSpec (measuredModel "weight") (Table.ofList [("weight", weightField)])).isOk = true by decide +kernel)
  obtain ⟨o, ho⟩ := Outcome.exists_of_isOk
    (show (Intake.observe (Table.ofList [("weight", weightField)])
      (.ofJson (.object [("weight", .string "64")]))).isOk = true by decide +kernel)
  refine ⟨_, bayes, o, hi, hbayes, ho, (notNumeric_iff hi hbayes ho).2 fun b hb f _ hf => ?_⟩
  obtain rfl := List.mem_singleton.mp hb
  cases hf
  rfl

/-- A model is accepted that fails for every value of its field, while a vector of the field is refused. -/
theorem color_measured : ∃ i bayes o f, Intake.ofNames bodyScope ["color"] = .ok i ∧
    ofSpec (measuredModel "color") i = .ok bayes ∧
    i.observe (.ofJson (.object [("color", .string "red")])) = .ok o ∧
    bayes.logLikelihoods o = .error (.mismatch (.notNumeric (.string "red") "color")) ∧
    bodyScope.resolve "color" = .ok f ∧
    Span.ofField f 0 = .error (.unsupported (.continuousType "color" .string)) := by
  have hi := Intake.ofNames_singleton resolve_color
  obtain ⟨bayes, hbayes⟩ := Outcome.exists_of_isOk
    (show (ofSpec (measuredModel "color") (Table.ofList [("color", colorField)])).isOk = true by decide +kernel)
  have ho : (Intake.observe (Table.ofList [("color", colorField)])
      (.ofJson (.object [("color", .string "red")]))).toOption.map (fun o => (o.value? "color").bind Scalar.toText?) =
        some (some "red") := by decide +kernel
  obtain ⟨o, ho, hvalue⟩ := Outcome.exists_of_toOption_map ho
  obtain ⟨v, hv, hvalue⟩ := Option.bind_eq_some_iff.mp hvalue
  obtain rfl : v = .string "red" := Scalar.eq_of_toText? hvalue
  refine ⟨_, bayes, o, colorField, hi, hbayes, ho, ?_, resolve_color, rfl⟩
  refine (logLikelihoods_eq_error hbayes ho).mpr
    ⟨[], _, [], colorField, .string "red", rfl, fun _ h => absurd h List.not_mem_nil, rfl, hv, ?_, rfl⟩
  rintro ⟨x, hx⟩
  cases hx

end NaiveBayes

end Scoring
