import Scoring.Proofs.Field.Observation
import Scoring.Proofs.Layout.Encoding
import Scoring.Proofs.Layout.Entries
import Scoring.Proofs.Scorer.Fit
import Scoring.Proofs.SparseVector.Payload

/-!
# Refusal — why a document is not scored

The evaluators check what they are given: the length of a vector, the kind of an input, the names of its fields. On a
compiled model none of these checks ever fails, and no index leaves its list. A document is refused only for what it
holds itself, and `Scorer.Refuses` lists all the ways (`run_refuses`).
-/

namespace Scoring

open Spec (Document)

/-! ## 1. Payloads -/

def Mismatch.ofPayload : Mismatch → Bool
  | vectorLengths _ _ | indexOutOfRange _ _ | notAscending _ _ | noIndices | noValues | badIndex _
  | badValue _ => true
  | _ => false

namespace SparseVector

theorem ofPayload_of_badIndex? {size : Nat} {previous : Option Nat} {is : List Nat} {cause : Mismatch}
    (h : badIndex? size previous is = some cause) : cause.ofPayload = true := by
  obtain ⟨front, i, back, -, -, ⟨-, rfl⟩ | ⟨-, p, -, -, rfl⟩⟩ := exists_of_badIndex? h
  · rfl
  · rfl

theorem ofPayload_of_ofParts {size : Nat} {is : List Nat} {xs : List Float} {e : Fault}
    (h : ofParts size is xs = .error e) : ∃ cause, e = .mismatch cause ∧ cause.ofPayload = true := by
  unfold ofParts at h
  split at h
  · unfold ofEntries at h
    split at h
    · rename_i cause hcause
      cases h
      exact ⟨cause, rfl, ofPayload_of_badIndex? hcause⟩
    · cases h
  · cases h
    exact ⟨_, rfl, rfl⟩

theorem fault_of_ofPayload {payload : Json} {size : Nat} {e : Fault}
    (h : SparseVector.ofPayload payload size = .error e) :
    ∃ cause, e = .mismatch cause ∧ cause.ofPayload = true := by
  unfold SparseVector.ofPayload at h
  split at h
  · rw [Outcome.bind_eq_error] at h
    rcases h with h | ⟨indices, -, h⟩
    · obtain ⟨item, -, -, rfl⟩ := exists_of_eachItem_eq_error h
      exact ⟨_, rfl, rfl⟩
    · split at h
      · rw [Outcome.bind_eq_error] at h
        rcases h with h | ⟨values, -, h⟩
        · obtain ⟨item, -, -, rfl⟩ := exists_of_eachItem_eq_error h
          exact ⟨_, rfl, rfl⟩
        · exact ofPayload_of_ofParts h
      · cases h
        exact ⟨_, rfl, rfl⟩
  · cases h
    exact ⟨_, rfl, rfl⟩

end SparseVector

/-! ## 2. Linear models -/

namespace LinearModel

theorem score_eq_ok {m : LinearModel} {w : SparseVector} (h : m.Fits w.size) :
    ∃ x, m.score w = .ok x := by
  unfold score SparseVector.dot
  rw [if_pos h.coefficients]
  exact ⟨_, rfl⟩

end LinearModel

/-! ## 3. Runs -/

namespace Scorer

def input (s : Scorer) (document : Json) : Outcome Input :=
  match s.pipeline with
  | .precomputed size => do .ok (.vector (← SparseVector.ofPayload document size))
  | _ => s.prepare (.ofJson document)

def answer (s : Scorer) (params : Params) (input : Input) : Outcome Answer := do
  if params.debug then .ok (.explanation (← s.explain input)) else .ok (.label (← s.classify input))

theorem run_eq (s : Scorer) (document : Json) (params : Params) :
    s.run document params = s.input document >>= s.answer params := by
  obtain ⟨name, pipeline, classifier⟩ := s
  cases pipeline with
  | vector v => rfl
  | fields i => rfl
  | precomputed size =>
    show (SparseVector.ofPayload document size >>= fun w => answer _ params (.vector w)) =
      (SparseVector.ofPayload document size >>= fun w => .ok (.vector w)) >>= answer _ params
    cases SparseVector.ofPayload document size <;> rfl

/-- Why a scorer cannot answer a document. -/
inductive Refuses (s : Scorer) (document : Json) : Mismatch → Prop
  | span {v : Vectorizer} {span : Span} {cause : Mismatch} (pipeline : s.pipeline = .vector v)
      (mem : span ∈ v.spans) (refuses : span.Refuses (.ofJson document) cause) :
      Refuses s document cause
  | field {i : Intake} {f : Field} {cause : Mismatch} (pipeline : s.pipeline = .fields i)
      (mem : f ∈ i.values) (refuses : f.Refuses (.ofJson document) cause) : Refuses s document cause
  | root {i : Intake} {t : DecisionTree} {o : Observation} (pipeline : s.pipeline = .fields i)
      (classifier : s.classifier = .tree t) (observed : i.observe (.ofJson document) = .ok o)
      (fails : t.holds o 0 = false) : Refuses s document .rootFails
  | child {i : Intake} {t : DecisionTree} {o : Observation} {n : Branch}
      (pipeline : s.pipeline = .fields i) (classifier : s.classifier = .tree t)
      (observed : i.observe (.ofJson document) = .ok o) (stuck : t.Stuck o n) :
      Refuses s document (.noChild n.id)
  | evidence {i : Intake} {m : NaiveBayes} {o : Observation} {e : Evidence} {cause : Mismatch}
      (pipeline : s.pipeline = .fields i) (classifier : s.classifier = .bayes m)
      (observed : i.observe (.ofJson document) = .ok o) (mem : e ∈ m.evidence)
      (unknown : NaiveBayes.Unknown o e cause) : Refuses s document cause
  | payload {size : Nat} {cause : Mismatch} (pipeline : s.pipeline = .precomputed size)
      (malformed : SparseVector.ofPayload document size = .error (.mismatch cause))
      (ofPayload : cause.ofPayload = true) : Refuses s document cause

end Scorer

/-- The failures of the evaluators' own checks. -/
def Mismatch.isGuard : Mismatch → Bool
  | vectorSize _ _ | inputKind _ | noField _ | extraFields _ _ | precomputedOnly
  | noPrediction _ => true
  | _ => false

def Mismatch.ofEntries : Mismatch → Bool
  | indexOutOfRange _ _ | notAscending _ _ => true
  | _ => false

namespace Scorer

variable {s : Scorer} {document : Json}

theorem Refuses.isGuard_eq_false {cause : Mismatch} (h : s.Refuses document cause) :
    cause.isGuard = false := by
  cases h with
  | span _ _ refuses => cases refuses <;> rfl
  | field _ _ refuses => cases refuses <;> rfl
  | root => rfl
  | child => rfl
  | evidence _ _ _ _ unknown => cases unknown <;> rfl
  | payload _ _ ofPayload =>
    -- no failure of a payload is one of the guards
    cases cause <;> first | rfl | cases ofPayload

theorem Refuses.ofEntries_eq_false {cause : Mismatch} (h : s.Refuses document cause)
    (hs : s.isPrecomputed = false) : cause.ofEntries = false := by
  cases h with
  | span _ _ refuses => cases refuses <;> rfl
  | field _ _ refuses => cases refuses <;> rfl
  | root => rfl
  | child => rfl
  | evidence _ _ _ _ unknown => cases unknown <;> rfl
  | payload pipeline _ _ =>
    -- only where the caller supplies the vectors are their indices up to a document
    unfold isPrecomputed at hs
    rw [pipeline] at hs
    cases hs

/-! ## 4. Inputs -/

/-- The input that a document gives a scorer, with all that its classifier relies on. -/
inductive Given (s : Scorer) (document : Json) : Input → Prop
  | vector {m : LinearModel} {w : SparseVector}
      (classifier : s.classifier = .logistic m ∨ s.classifier = .margin m) (fits : m.Fits w.size) :
      Given s document (.vector w)
  | tree {i : Intake} {t : DecisionTree} {o : Observation} (pipeline : s.pipeline = .fields i)
      (classifier : s.classifier = .tree t) (observed : i.observe (.ofJson document) = .ok o)
      (checked : o.check t.fields = .ok ()) (labelled : t.Labelled) : Given s document (.observation o)
  | bayes {i : Intake} {m : NaiveBayes} {o : Observation} (pipeline : s.pipeline = .fields i)
      (classifier : s.classifier = .bayes m) (observed : i.observe (.ofJson document) = .ok o)
      (checked : o.check m.fields = .ok ()) (fits : m.Fits) : Given s document (.observation o)

theorem input_of_vector {v : Vectorizer} (h : s.pipeline = .vector v) :
    s.input document = v.vectorize (.ofJson document) >>= fun w => .ok (.vector w) := by
  unfold input prepare
  rw [h]

theorem input_of_precomputed {size : Nat} (h : s.pipeline = .precomputed size) :
    s.input document = SparseVector.ofPayload document size >>= fun w => .ok (.vector w) := by
  unfold input
  rw [h]

theorem input_of_fields {i : Intake} (h : s.pipeline = .fields i) :
    s.input document = i.observe (.ofJson document) >>= fun o => .ok (.observation o) := by
  unfold input prepare
  rw [h]

/-- A document that cannot be read is refused. -/
theorem refuses_of_input (hs : s.Fits) {e : Fault} (h : s.input document = .error e) :
    ∃ cause, e = .mismatch cause ∧ s.Refuses document cause := by
  cases hs with
  | vector linear spans fits =>
    rw [input_of_vector rfl, Outcome.bind_eq_error] at h
    rcases h with h | ⟨w, -, h⟩
    · obtain ⟨before, span, after, hspans, -, herror⟩ := Vectorizer.vectorize_eq_error.mp h
      obtain ⟨cause, he, hrefuses⟩ := Span.refuses_of_entries herror
      exact ⟨cause, he, .span rfl (by simp [hspans]) hrefuses⟩
    · cases h
  | precomputed linear fits =>
    rw [input_of_precomputed rfl, Outcome.bind_eq_error] at h
    rcases h with h | ⟨w, -, h⟩
    · obtain ⟨cause, rfl, hcause⟩ := SparseVector.fault_of_ofPayload h
      exact ⟨cause, rfl, .payload rfl h hcause⟩
    · cases h
  | tree | bayes =>
    rw [input_of_fields rfl, Outcome.bind_eq_error] at h
    rcases h with h | ⟨o, -, h⟩
    · obtain ⟨f, hf, cause, he, hrefuses⟩ := Intake.refuses_of_observe h
      exact ⟨cause, he, .field rfl hf hrefuses⟩
    · cases h

/-- A document that can be read gives an input that fits the classifier. -/
theorem given_of_input (hs : s.Fits) {input : Input} (h : s.input document = .ok input) :
    s.Given document input := by
  cases hs with
  | vector linear spans fits =>
    rw [input_of_vector rfl, Outcome.bind_eq_ok] at h
    obtain ⟨w, hw, hinput⟩ := h
    cases hinput
    rw [(Vectorizer.eq_stored_of_vectorize spans hw).1]
    exact .vector linear fits
  | precomputed linear fits =>
    rw [input_of_precomputed rfl, Outcome.bind_eq_ok] at h
    obtain ⟨w, hw, hinput⟩ := h
    cases hinput
    exact .vector linear ((SparseVector.ofPayload_eq_ok_iff.mp hw).1.symm ▸ fits)
  | tree fields labelled =>
    rw [input_of_fields rfl, Outcome.bind_eq_ok] at h
    obtain ⟨o, ho, hinput⟩ := h
    cases hinput
    have hnames := (Intake.names_of_observe ho).trans fields.symm
    exact .tree rfl rfl ho (Observation.check_eq_ok hnames) labelled
  | bayes fields fits =>
    rw [input_of_fields rfl, Outcome.bind_eq_ok] at h
    obtain ⟨o, ho, hinput⟩ := h
    cases hinput
    have hnames := (Intake.names_of_observe ho).trans fields.symm
    exact .bayes rfl rfl ho (Observation.check_eq_ok hnames) fits

/-! ## 5. Answers -/

/-- A class is answered exactly where it is explained. -/
theorem classify_eq (s : Scorer) (input : Input) :
    s.classify input = (s.explain input).map (·.label) := by
  obtain ⟨name, pipeline, classifier⟩ := s
  cases classifier with
  | logistic m =>
    cases input with
    | vector w =>
      show m.logistic w = (m.explainLogistic w).map (·.label)
      unfold LinearModel.logistic LinearModel.explainLogistic LinearModel.probability
      cases m.score w <;> rfl
    | observation o => rfl
  | margin m =>
    cases input with
    | vector w =>
      show m.margin w = (m.explainMargin w).map (·.label)
      unfold LinearModel.margin LinearModel.explainMargin
      cases m.score w <;> rfl
    | observation o => rfl
  | tree t =>
    cases input with
    | vector w => rfl
    | observation o => exact DecisionTree.classify_eq t o
  | bayes m =>
    cases input with
    | vector w => rfl
    | observation o => exact NaiveBayes.classify_eq m o

/-- An answer fails for want of an explanation. -/
theorem explain_of_answer {input : Input} {params : Params} {e : Fault}
    (h : s.answer params input = .error e) : s.explain input = .error e := by
  unfold answer at h
  split at h
  · rw [Outcome.bind_eq_error] at h
    rcases h with h | ⟨_, -, h⟩
    · exact h
    · cases h
  -- the class alone is wanted, and fails for the same reason
  · rw [Outcome.bind_eq_error, classify_eq, Outcome.map_eq_error] at h
    rcases h with h | ⟨_, -, h⟩
    · exact h
    · cases h

/-- An input that cannot be explained is refused. -/
theorem refuses_of_explain {input : Input} (hg : s.Given document input) {e : Fault}
    (h : s.explain input = .error e) : ∃ cause, e = .mismatch cause ∧ s.Refuses document cause := by
  unfold explain at h
  cases hg with
  | vector classifier fits =>
    -- with a coefficient for each index a score never fails
    obtain ⟨x, hx⟩ := LinearModel.score_eq_ok fits
    rcases classifier with hc | hc
    · simp only [hc, LinearModel.explainLogistic, hx, Outcome.ok_bind] at h
      cases h
    · simp only [hc, LinearModel.explainMargin, hx, Outcome.ok_bind] at h
      cases h
  | tree pipeline classifier observed checked labelled =>
    rw [classifier] at h
    rcases DecisionTree.exists_of_explain_eq_error labelled checked h with
      ⟨rfl, hroot⟩ | ⟨n, rfl, hstuck⟩
    · exact ⟨_, rfl, .root pipeline classifier observed hroot⟩
    · exact ⟨_, rfl, .child pipeline classifier observed hstuck⟩
  | bayes pipeline classifier observed checked fits =>
    rename_i m o
    rw [classifier] at h
    have h : m.explain o = .error e := h
    unfold NaiveBayes.explain at h
    rw [Outcome.bind_eq_error] at h
    rcases h with h | ⟨totals, -, h⟩
    · obtain ⟨ev, hev, cause, he, hunknown⟩ := NaiveBayes.unknown_of_logLikelihoods checked h
      exact ⟨cause, he, .evidence pipeline classifier observed hev hunknown⟩
    · cases h

end Scorer

/-! ## 6. Indices -/

/-- All the indices that a classifier uses on an input lie within its lists. -/
def Classifier.InRange : Classifier → Input → Prop
  | .logistic m, .vector w | .margin m, .vector w =>
    ∀ k ∈ w.indices, k < m.coefficients.length ∧ ∀ slots ∈ m.parameters, k < slots.length
  | .tree t, .observation _ =>
    0 < t.nodes.length ∧ ∀ n ∈ t.nodes, ∀ c ∈ n.children, c < t.nodes.length
  | .bayes m, .observation o => ∀ totals, m.logLikelihoods o = .ok totals →
    totals.length = m.classes.length ∧ Arithmetic.firstGreatest totals < m.classes.length ∧
      ∀ e ∈ m.evidence, e.Fits m.classes.length
  | _, _ => False

namespace Scorer

variable {s : Scorer} {document : Json}

theorem inRange_of_given {input : Input} (h : s.Given document input) : s.classifier.InRange input := by
  cases h with
  | vector classifier fits =>
    rename_i m w
    have hrange : ∀ k ∈ w.indices, k < m.coefficients.length ∧ ∀ slots ∈ m.parameters, k < slots.length := by
      intro k hk
      -- the indices of a vector lie within its size, and the lists are as long
      have hlt := w.inRange k hk
      refine ⟨by rw [fits.coefficients]; exact hlt, fun slots hslots => ?_⟩
      rw [fits.parameters slots hslots]
      exact hlt
    rcases classifier with hc | hc
    · rw [hc]
      exact hrange
    · rw [hc]
      exact hrange
  | tree pipeline classifier observed checked labelled =>
    rename_i i t o
    rw [classifier]
    refine ⟨t.nonempty, fun n hn c hc => ?_⟩
    obtain ⟨k, hk⟩ := List.mem_iff_getElem?.mp hn
    exact (t.below k n hk c hc).2
  | bayes pipeline classifier observed checked fits =>
    rw [classifier]
    intro totals htotals
    have hlength := NaiveBayes.length_logLikelihoods fits htotals
    refine ⟨hlength, ?_, fits.evidence⟩
    rw [← hlength]
    exact Arithmetic.firstGreatest_lt (hlength ▸ fits.nonempty)

end Scorer

/-! ## 7. Compiled models -/

namespace Compile

/-- A compiled model fits its own pipeline: whatever the document, no index leaves its list, none of the evaluators'
own checks fails, and the document is refused only for what it holds. -/
theorem run_refuses {d : Document} {index : Nat} {s : Scorer}
    (h : modelAt d index = .ok s ∨ precomputedAt d index = .ok s) (document : Json) :
    (∀ input, s.input document = .ok input → s.classifier.InRange input) ∧
      ∀ params e, s.run document params = .error e →
        ∃ cause, e = .mismatch cause ∧ s.Refuses document cause ∧ cause.isGuard = false ∧
          (s.isPrecomputed = false → cause.ofEntries = false) := by
  have hfits : s.Fits := by
    rcases h with h | h
    · exact fits_of_modelAt h
    · exact fits_of_precomputedAt h
  constructor
  · intro input hinput
    exact Scorer.inRange_of_given (Scorer.given_of_input hfits hinput)
  · intro params e he
    rw [Scorer.run_eq, Outcome.bind_eq_error] at he
    obtain ⟨cause, hcause, hrefuses⟩ : ∃ cause, e = .mismatch cause ∧ s.Refuses document cause := by
      -- either the document cannot be read, or its input cannot be explained
      rcases he with he | ⟨input, hinput, he⟩
      · exact Scorer.refuses_of_input hfits he
      · exact Scorer.refuses_of_explain (Scorer.given_of_input hfits hinput) (Scorer.explain_of_answer he)
    exact ⟨cause, hcause, hrefuses, hrefuses.isGuard_eq_false, hrefuses.ofEntries_eq_false⟩

def ageDocument : Document where
  version := none
  dictionary := ⟨[.continuous "age" .double, .categorical "y" .string ["no", "yes"]]⟩
  transformations := ⟨[]⟩
  models := [.tree {
    name := none
    function := .classification
    schema := ⟨[.active "age", .target "y"]⟩
    transformations := ⟨[]⟩
    strategy := .returnNullPrediction
    root := DecisionTree.ageTree }]

/-- At thirty years the tree has no way on from its second node. -/
theorem run_refuses_age : ∃ s, modelAt ageDocument 0 = .ok s ∧
    s.run (.object [("age", .int 30)]) .default = .error (.mismatch (.noChild "2")) ∧
    s.Refuses (.object [("age", .int 30)]) (.noChild "2") := by
  have hrun : (modelAt ageDocument 0).toOption.map (fun s =>
      match s.run (.object [("age", .int 30)]) .default with
      | .error (.mismatch (.noChild id)) => id == "2"
      | _ => false) = some true := by decide +kernel
  obtain ⟨s, hs, hnode⟩ := Outcome.exists_of_toOption_map hrun
  split at hnode
  · rename_i id hfault
    rw [beq_iff_eq] at hnode
    subst hnode
    obtain ⟨cause, hcause, hrefuses, -, -⟩ :=
      (run_refuses (Or.inl hs) (.object [("age", .int 30)])).2 .default _ hfault
    cases hcause
    exact ⟨s, hs, hfault, hrefuses⟩
  · cases hnode

end Compile

end Scoring
