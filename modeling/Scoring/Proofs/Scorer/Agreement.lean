import Scoring.Proofs.Scorer.Labels
import Scoring.Proofs.Scorer.Refusal

/-!
# Agreement — one answer through every entry

A document is scored as a whole, as a record, or as a vector, and each way either for its class or for an explanation.
All of them come down to one explanation: the class is the one that it names, and it fails where the explanation does.
The numbers of an explanation in turn leave no choice of the class (`Classifier.Decides`, `run_agrees`).
-/

namespace Scoring

open Spec (Document)

/-! ## 1. Entries -/

namespace Scorer

variable {s : Scorer} {document : Json} {r : Record}

theorem run_default (s : Scorer) (document : Json) :
    s.run document .default = (s.input document >>= s.explain).map .explanation := by
  rw [run_eq]
  cases s.input document with
  | error e => rfl
  | ok input =>
    show (do .ok (.explanation (← s.explain input)) : Outcome Answer) = (s.explain input).map .explanation
    cases s.explain input <;> rfl

/-- Asked for a class, a scorer leaves all but the class out of the explanation. -/
theorem run_labelOnly (s : Scorer) (document : Json) :
    s.run document .labelOnly = (s.input document >>= s.explain).map fun e => .label e.label := by
  rw [run_eq]
  cases s.input document with
  | error e => rfl
  | ok input =>
    show (do .ok (.label (← s.classify input)) : Outcome Answer) = (s.explain input).map _
    rw [classify_eq]
    cases s.explain input <;> rfl

/-- A class is answered for a record exactly where it is explained. -/
theorem label_eq (s : Scorer) (r : Record) : s.label r = (s.explanation r).map (·.label) := by
  unfold label explanation
  cases s.prepare r with
  | error e => rfl
  | ok input => exact classify_eq s input

/-- Unless the caller supplies the vectors, a document is scored as the record that it is. -/
theorem explanation_eq (h : s.isPrecomputed = false) :
    s.explanation (.ofJson document) = s.input document >>= s.explain := by
  obtain ⟨name, pipeline, classifier⟩ := s
  cases pipeline with
  | precomputed size => cases h
  | vector | fields => rfl

theorem explanation_of_vector {v : Vectorizer} (h : s.pipeline = .vector v) (r : Record) :
    s.explanation r = v.vectorize r >>= s.explainVector := by
  have hprepare : s.prepare r = v.vectorize r >>= fun w => .ok (.vector w) := by
    unfold prepare
    rw [h]
  unfold explanation
  rw [hprepare]
  cases v.vectorize r <;> rfl

theorem explanation_of_precomputed {size : Nat} (h : s.pipeline = .precomputed size) (r : Record) :
    s.explanation r = .error (.mismatch .precomputedOnly) := by
  unfold explanation prepare
  rw [h]
  rfl

/-- A class is answered for a vector exactly where it is explained. -/
theorem labelVector_eq (s : Scorer) (w : SparseVector) :
    s.labelVector w = (s.explainVector w).map (·.label) :=
  classify_eq s (.vector w)

theorem bind_labelVector (s : Scorer) (w : Outcome SparseVector) :
    w >>= s.labelVector = (w >>= s.explainVector).map (·.label) := by
  cases w with
  | error e => rfl
  | ok w => exact s.labelVector_eq w

theorem explain_of_precomputed {size : Nat} (h : s.pipeline = .precomputed size) (document : Json) :
    s.input document >>= s.explain = SparseVector.ofPayload document size >>= s.explainVector := by
  rw [input_of_precomputed h]
  cases SparseVector.ofPayload document size <;> rfl

end Scorer

/-! ## 2. Numbers of an explanation -/

/-- The numbers of an explanation leave no other class than the one that it names. For a linear model they lie on its
side of the threshold; for naive Bayes it is the first of the classes with the greatest score. -/
def Classifier.Decides (c : Classifier) (e : Explanation) : Prop :=
  match c with
  | .logistic m => ∃ p : Float, e.probabilities.find? m.classes.positive = some p ∧
      (e.label = m.classes.positive ↔ p ≥ 0.5) ∧ (e.label = m.classes.negative ↔ ¬ p ≥ 0.5)
  | .margin m => ∃ x : Float, e.scores.find? m.classes.positive = some x ∧
      (e.label = m.classes.positive ↔ x > 0.0) ∧ (e.label = m.classes.negative ↔ ¬ x > 0.0)
  | .tree _ => True
  | .bayes m => ∃ (k : Nat) (x : Float), m.classes[k]? = some e.label ∧ e.scores.find? e.label = some x ∧
      (∀ c ∈ m.classes, ∃ y, e.scores.find? c = some y ∧ Arithmetic.compare y x ≠ .gt) ∧
      ∀ (j : Nat) (c : String) (y : Float), j < k → m.classes[j]? = some c → e.scores.find? c = some y →
        Arithmetic.compare y x = .lt

/-- The side of a threshold is told by the class that stands for it. -/
theorem label_iff {positive negative : String} (h : positive ≠ negative) (p : Prop) [Decidable p] :
    ((if p then positive else negative) = positive ↔ p) ∧
      ((if p then positive else negative) = negative ↔ ¬ p) := by
  by_cases hp : p <;> simp [hp, h, h.symm]

namespace LinearModel

variable {m : LinearModel} {w : SparseVector} {e : Explanation}

theorem decides_logistic (hm : m.classes.positive ≠ m.classes.negative)
    (h : m.explainLogistic w = .ok e) : Classifier.Decides (.logistic m) e := by
  unfold explainLogistic at h
  rw [Outcome.bind_eq_ok] at h
  obtain ⟨score, -, h⟩ := h
  cases h
  refine ⟨Link.sigmoid score, ?_, label_iff hm _⟩
  -- the other class does not overwrite the number
  rw [Table.find?_insert, if_neg hm, Table.find?_insert, if_pos rfl]

theorem decides_margin (hm : m.classes.positive ≠ m.classes.negative) (h : m.explainMargin w = .ok e) :
    Classifier.Decides (.margin m) e := by
  unfold explainMargin at h
  rw [Outcome.bind_eq_ok] at h
  obtain ⟨margin, -, h⟩ := h
  cases h
  refine ⟨margin, ?_, label_iff hm _⟩
  rw [Table.find?_insert, if_pos rfl]

end LinearModel

namespace NaiveBayes

/-- The score of a class is the number at its place. -/
theorem find?_scores {classes : List String} (hclasses : classes.Nodup) {totals : List Float}
    (hlength : totals.length = classes.length) {c : String} {y : Float} :
    (Table.ofList (classes.zip totals)).find? c = some y ↔
      ∃ j : Nat, classes[j]? = some c ∧ totals[j]? = some y := by
  have hd : ((classes.zip totals).map Prod.fst).Nodup := by
    rw [List.map_fst_zip hlength.ge]
    exact hclasses
  rw [Table.find?_ofList hd, Table.lookup_eq_some_iff hd, List.mem_iff_getElem?]
  simp only [List.getElem?_zip_eq_some]

theorem decides_bayes {m : NaiveBayes} (hclasses : m.classes.Nodup) (hfits : m.Fits) {o : Observation}
    {e : Explanation} (h : m.explain o = .ok e) : Classifier.Decides (.bayes m) e := by
  unfold explain at h
  rw [Outcome.bind_eq_ok] at h
  obtain ⟨totals, htotals, h⟩ := h
  cases h
  have hlength := length_logLikelihoods hfits htotals
  have hfind := @find?_scores m.classes hclasses totals hlength
  obtain ⟨x, hx⟩ := Arithmetic.firstGreatest_spec (hlength ▸ hfits.nonempty)
  have hk : Arithmetic.firstGreatest totals < m.classes.length :=
    hlength ▸ (List.getElem?_eq_some_iff.mp hx.getElem).1
  have hlabel : m.classes[Arithmetic.firstGreatest totals]? = some (m.best totals) := by
    unfold best
    rw [List.getD_eq_getElem?_getD, List.getElem?_eq_getElem hk, Option.getD_some]
  refine ⟨Arithmetic.firstGreatest totals, x, hlabel, hfind.mpr ⟨_, hlabel, hx.getElem⟩, ?_, ?_⟩
  · intro c hc
    obtain ⟨j, hj⟩ := List.mem_iff_getElem?.mp hc
    have hlt : j < totals.length := hlength ▸ (List.getElem?_eq_some_iff.mp hj).1
    refine ⟨totals[j], hfind.mpr ⟨j, hj, List.getElem?_eq_getElem hlt⟩, ?_⟩
    exact hx.greatest _ (List.getElem_mem hlt)
  · intro j c y hj hc hy
    obtain ⟨i, hi, hiy⟩ := hfind.mp hy
    -- a class stands at one place only
    have hij : i = j := by
      have hlt := (List.getElem?_eq_some_iff.mp hi).1
      exact (List.getElem?_inj hlt hclasses).mp (hi.trans hc.symm)
    exact hx.first j y hj (hij ▸ hiy)

end NaiveBayes

theorem Scorer.decides_of_explain {s : Scorer} (hs : s.classifier.Separates) {input : Input}
    {e : Explanation} (h : s.explain input = .ok e) : s.classifier.Decides e := by
  obtain ⟨name, pipeline, classifier⟩ := s
  cases classifier with
  | logistic m =>
    cases input with
    | vector w => exact LinearModel.decides_logistic hs h
    | observation o => cases h
  | margin m =>
    cases input with
    | vector w => exact LinearModel.decides_margin hs h
    | observation o => cases h
  | tree t => trivial
  | bayes m =>
    cases input with
    | vector w => cases h
    | observation o => exact NaiveBayes.decides_bayes hs.1 hs.2 h

/-! ## 3. Compiled models -/

namespace Compile

/-- All entries of a compiled model agree. With an explanation or without, a document gets the same class or the same
fault; scoring a document is scoring its record, scoring a record is scoring its vector, and a model for vectors that
the caller supplies reads the document as one and scores no record. Whatever the entry, the numbers of an explanation
decide its class. -/
theorem run_agrees {d : Document} {index : Nat} {s : Scorer}
    (h : modelAt d index = .ok s ∨ precomputedAt d index = .ok s ∨ Compile.document d = .ok s)
    (document : Json) :
    (∀ l, s.run document .labelOnly = .ok (.label l) ↔
      ∃ e, s.run document .default = .ok (.explanation e) ∧ e.label = l) ∧
    (∀ fault, s.run document .labelOnly = .error fault ↔ s.run document .default = .error fault) ∧
    (∀ r, s.label r = (s.explanation r).map (·.label)) ∧
    (∀ w, s.labelVector w = (s.explainVector w).map (·.label)) ∧
    (s.isPrecomputed = false →
      s.run document .labelOnly = (s.label (.ofJson document)).map .label ∧
        s.run document .default = (s.explanation (.ofJson document)).map .explanation) ∧
    (∀ v, s.pipeline = .vector v → ∀ r,
      s.label r = v.vectorize r >>= s.labelVector ∧ s.explanation r = v.vectorize r >>= s.explainVector) ∧
    (∀ size, s.pipeline = .precomputed size →
      s.run document .labelOnly = (SparseVector.ofPayload document size >>= s.labelVector).map .label ∧
        s.run document .default =
          (SparseVector.ofPayload document size >>= s.explainVector).map .explanation ∧
        ∀ r, s.label r = .error (.mismatch .precomputedOnly) ∧
          s.explanation r = .error (.mismatch .precomputedOnly)) ∧
    ∀ e, (s.run document .default = .ok (.explanation e) ∨ (∃ r, s.explanation r = .ok e) ∨
      ∃ w, s.explainVector w = .ok e) → s.classifier.Decides e := by
  have hs : s.classifier.Separates := by
    rcases h with h | h | h
    · exact separates_of_modelAt h
    · exact separates_of_precomputedAt h
    · exact separates_of_document h
  rw [Scorer.run_default, Scorer.run_labelOnly]
  refine ⟨fun l => ?_, fun fault => ?_, s.label_eq, s.labelVector_eq, fun hpre => ?_, fun v hv r => ?_,
    fun size hsize => ?_, ?_⟩
  · cases s.input document >>= s.explain with
    | error e => simp [Except.map]
    | ok e => simp [Except.map]
  · cases s.input document >>= s.explain with
    | error e => simp [Except.map]
    | ok e => simp [Except.map]
  · rw [Scorer.label_eq, Scorer.explanation_eq hpre]
    cases s.input document >>= s.explain with
    | error e => exact ⟨rfl, rfl⟩
    | ok e => exact ⟨rfl, rfl⟩
  · rw [Scorer.label_eq, Scorer.bind_labelVector, Scorer.explanation_of_vector hv]
    exact ⟨rfl, rfl⟩
  · rw [Scorer.bind_labelVector, Scorer.explain_of_precomputed hsize]
    refine ⟨?_, rfl, fun r => ?_⟩
    · cases SparseVector.ofPayload document size >>= s.explainVector <;> rfl
    · rw [Scorer.label_eq, Scorer.explanation_of_precomputed hsize]
      exact ⟨rfl, rfl⟩
  · rintro e (h | ⟨r, h⟩ | ⟨w, h⟩)
    · cases hexplained : s.input document >>= s.explain with
      | error fault =>
        rw [hexplained] at h
        cases h
      | ok e' =>
        rw [hexplained] at h
        cases h
        obtain ⟨input, -, hexplain⟩ := Outcome.bind_eq_ok.mp hexplained
        exact Scorer.decides_of_explain hs hexplain
    · obtain ⟨input, -, hexplain⟩ := Outcome.bind_eq_ok.mp h
      exact Scorer.decides_of_explain hs hexplain
    · exact Scorer.decides_of_explain hs h

def marginDocument : Document where
  version := none
  dictionary := ⟨[.continuous "age" .double, .categorical "y" .string ["no", "yes"]]⟩
  transformations := ⟨[]⟩
  models := [.regression {
    name := none
    function := .classification
    normalization := .none
    schema := ⟨[.active "age", .target "y"]⟩
    transformations := ⟨[]⟩
    tables := [⟨-1.0, some "yes", [⟨"age", 1, 0.5⟩], []⟩, ⟨0.0, some "no", [], []⟩] }]

def marginPayload : Json :=
  .object [("indices", .array [.int 0]), ("values", .array [.float 4.0])]

/-- The machine answers the class of the explanation, whose score is above zero. -/
theorem run_agrees_margin : ∃ s, precomputedAt marginDocument 0 = .ok s ∧
    s.run marginPayload .labelOnly = .ok (.label "yes") ∧
    ∃ e, s.run marginPayload .default = .ok (.explanation e) ∧ e.label = "yes" ∧ s.classifier.Decides e := by
  have hrun : (precomputedAt marginDocument 0).toOption.map (fun s =>
      match s.run marginPayload .labelOnly with
      | .ok (.label l) => l == "yes"
      | _ => false) = some true := by decide +kernel
  obtain ⟨s, hs, hyes⟩ := Outcome.exists_of_toOption_map hrun
  split at hyes
  · rename_i l hlabel
    rw [beq_iff_eq] at hyes
    subst hyes
    obtain ⟨hlabels, -, -, -, -, -, -, hdecides⟩ := run_agrees (Or.inr (Or.inl hs)) marginPayload
    obtain ⟨e, he, hclass⟩ := (hlabels "yes").mp hlabel
    exact ⟨s, hs, hlabel, e, he, hclass, hdecides e (Or.inl he)⟩
  · cases hyes

end Compile

end Scoring
