import Scoring.Proofs.Fault.Compiling
import Scoring.Proofs.Scorer.Refusal

/-!
# Running — what scoring can fail with

Scoring meets documents and vectors that need not fit the model, and every failure says just that. The kind of a failure
therefore tells in which phase it arose: `failures_by_phase`.
-/

namespace Scoring

open Outcome (FailsOnly)
open Spec (Document)

/-! ## 1. The kind of run-time failures -/

def FaultKind.runTime : List FaultKind :=
  [.mismatch]

open FaultKind (runTime)

namespace Outcome.FailsOnly

variable {α : Type}

theorem mismatch (cause : Mismatch) : FailsOnly runTime (.error (.mismatch cause) : Outcome α) :=
  .error List.mem_cons_self

theorem of_mismatch {x : Outcome α} (h : ∀ e, x = .error e → ∃ cause, e = .mismatch cause) :
    FailsOnly runTime x := by
  intro e he
  obtain ⟨cause, rfl⟩ := h e he
  exact List.mem_cons_self

end Outcome.FailsOnly

/-! ## 2. Inputs -/

theorem Vectorizer.failsOnly_vectorize (v : Vectorizer) (r : Record) :
    FailsOnly runTime (v.vectorize r) := by
  refine .of_mismatch fun e h => ?_
  obtain ⟨before, s, after, -, -, herror⟩ := vectorize_eq_error.mp h
  obtain ⟨cause, he, -⟩ := Span.refuses_of_entries herror
  exact ⟨cause, he⟩

theorem Intake.failsOnly_observe (i : Intake) (r : Record) : FailsOnly runTime (i.observe r) := by
  refine .of_mismatch fun e h => ?_
  obtain ⟨f, -, cause, he, -⟩ := refuses_of_observe h
  exact ⟨cause, he⟩

theorem SparseVector.failsOnly_ofPayload (payload : Json) (size : Nat) :
    FailsOnly runTime (ofPayload payload size) := by
  refine .of_mismatch fun e h => ?_
  obtain ⟨cause, he, -⟩ := fault_of_ofPayload h
  exact ⟨cause, he⟩

theorem Observation.failsOnly_check (o : Observation) (expected : List String) :
    FailsOnly runTime (o.check expected) := by
  unfold check
  split
  · exact .mismatch _
  · split
    · exact .ok _
    · exact .mismatch _

/-! ## 3. Evaluators -/

theorem LinearModel.failsOnly_score (m : LinearModel) (v : SparseVector) :
    FailsOnly runTime (m.score v) := by
  refine FailsOnly.map ?_ _
  unfold SparseVector.dot
  split
  · exact .ok _
  · exact .mismatch _

namespace DecisionTree

theorem failsOnly_descend (t : DecisionTree) (o : Observation) (place : Nat)
    (h : place < t.nodes.length) : FailsOnly runTime (t.descend o place h) := by
  -- down the tree: children stand behind their parents, so fewer places are left with every step
  induction place, h using descend.induct t o with
  | case1 place h n hleaf =>
    rw [descend_leaf h (List.getElem?_eq_getElem h) (List.isEmpty_iff.mp hleaf)]
    exact .ok _
  | case2 place h n hchildren child hfind hchild ih =>
    rw [descend_child h (List.getElem?_eq_getElem h) hfind hchild.2]
    exact ih.map _
  | case3 place h n hchildren hfind | case4 place h n hchildren hfind =>
    rw [descend_stop h (List.getElem?_eq_getElem h) (mt List.isEmpty_iff.mpr hchildren) hfind]
    split
    · exact .ok _
    · exact .mismatch _

theorem failsOnly_walk (t : DecisionTree) (o : Observation) : FailsOnly runTime (t.walk o) := by
  refine (Observation.failsOnly_check o t.fields).bind fun _ => ?_
  split
  · exact failsOnly_descend t o 0 t.nonempty
  · exact .mismatch _

theorem failsOnly_prediction (n : Branch) : FailsOnly runTime (prediction n) := by
  unfold prediction
  split
  · exact .ok _
  · exact .mismatch _

theorem failsOnly_explain (t : DecisionTree) (o : Observation) : FailsOnly runTime (t.explain o) :=
  (failsOnly_walk t o).bind fun way => (failsOnly_prediction way.2).map _

end DecisionTree

namespace NaiveBayes

theorem failsOnly_logLikelihoods (m : NaiveBayes) (o : Observation) :
    FailsOnly runTime (m.logLikelihoods o) := by
  refine (Observation.failsOnly_check o m.fields).bind fun _ => ?_
  refine FailsOnly.foldlM (fun totals e => .of_mismatch fun fault h => ?_) m.evidence m.logPriors
  obtain ⟨cause, hfault, -⟩ := unknown_of_addEvidence h
  exact ⟨cause, hfault⟩

theorem failsOnly_explain (m : NaiveBayes) (o : Observation) : FailsOnly runTime (m.explain o) :=
  (failsOnly_logLikelihoods m o).map _

end NaiveBayes

/-! ## 4. Scorers -/

namespace Scorer

variable (s : Scorer)

theorem failsOnly_explain (input : Input) : FailsOnly runTime (s.explain input) := by
  obtain ⟨name, pipeline, classifier⟩ := s
  cases input with
  | vector v =>
    cases classifier with
    | logistic m | margin m => exact (m.failsOnly_score v).map _
    | tree | bayes => exact .mismatch _
  | observation o =>
    cases classifier with
    | logistic | margin => exact .mismatch _
    | tree t => exact t.failsOnly_explain o
    | bayes m => exact m.failsOnly_explain o

theorem failsOnly_classify (input : Input) : FailsOnly runTime (s.classify input) := by
  intro e h
  rw [classify_eq, Outcome.map_eq_error] at h
  exact s.failsOnly_explain input e h

theorem failsOnly_prepare (r : Record) : FailsOnly runTime (s.prepare r) := by
  unfold prepare
  split
  · exact (Vectorizer.failsOnly_vectorize _ r).map _
  · exact (Intake.failsOnly_observe _ r).map _
  · exact .mismatch _

theorem failsOnly_input (document : Json) : FailsOnly runTime (s.input document) := by
  unfold input
  split
  · exact (SparseVector.failsOnly_ofPayload document _).map _
  · exact s.failsOnly_prepare _

theorem failsOnly_run (document : Json) (params : Params) : FailsOnly runTime (s.run document params) := by
  rw [run_eq]
  refine (s.failsOnly_input document).bind fun input e h => ?_
  exact s.failsOnly_explain input e (explain_of_answer h)

end Scorer

/-! ## 5. Phases -/

namespace Compile

/-- A failure of compiling is the document's: it is not supported or malformed. A failure of scoring is a mismatch, for
any scorer, compiled or put together by hand, and whatever it is given. -/
theorem failures_by_phase (d : Document) (index : Nat) (s : Scorer) :
    (FailsOnly [.unsupported, .malformed] (document d) ∧
      FailsOnly [.unsupported, .malformed] (modelAt d index) ∧
      FailsOnly [.unsupported, .malformed] (precomputedAt d index)) ∧
    (∀ document params, FailsOnly [.mismatch] (s.run document params)) ∧
    (∀ r, FailsOnly [.mismatch] (s.label r) ∧ FailsOnly [.mismatch] (s.explanation r)) ∧
    ∀ v, FailsOnly [.mismatch] (s.labelVector v) ∧ FailsOnly [.mismatch] (s.explainVector v) := by
  refine ⟨⟨failsOnly_document d, failsOnly_modelAt d index, failsOnly_precomputedAt d index⟩,
    s.failsOnly_run, fun r => ⟨?_, ?_⟩, fun v => ⟨s.failsOnly_classify _, s.failsOnly_explain _⟩⟩
  · exact (s.failsOnly_prepare r).bind s.failsOnly_classify
  · exact (s.failsOnly_prepare r).bind s.failsOnly_explain

/-- Behind its only model a document has none, and at thirty years that model does not know what to answer. -/
theorem failures_by_phase_age : ∃ s e e', modelAt ageDocument 0 = .ok s ∧
    modelAt ageDocument 1 = .error e ∧ e.kind ∈ [FaultKind.unsupported, .malformed] ∧
    s.run (.object [("age", .int 30)]) .default = .error e' ∧ e'.kind ∈ [FaultKind.mismatch] := by
  have hrun : (modelAt ageDocument 0).toOption.map (fun s =>
      (s.run (.object [("age", .int 30)]) .default).isOk) = some false := by decide +kernel
  obtain ⟨s, hs, hfails⟩ := Outcome.exists_of_toOption_map hrun
  obtain ⟨⟨-, hcompile, -⟩, hscore, -⟩ := failures_by_phase ageDocument 1 s
  cases hanswer : s.run (.object [("age", .int 30)]) .default with
  | ok a =>
    rw [hanswer] at hfails
    cases hfails
  | error e' => exact ⟨s, _, e', hs, rfl, hcompile _ rfl, hanswer, hscore _ _ _ hanswer⟩

end Compile

end Scoring
