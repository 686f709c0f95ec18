import Scoring.CommandLine
import Scoring.Proofs.Linear.Precomputed

/-!
# CommandLine — the model of a run that is not told which one

A run that is given no index compiles a document as a whole, and a document with several models is refused. For
vectors that the caller supplies it is not: then the missing index is read as the first one, and the models behind
are passed over (`CommandLine.compile_without_index`).
-/

namespace Scoring

open Spec (Document)

/-! ## 1. Documents -/

namespace Compile

variable {d : Document} {s : Scorer}

/-- A document as a whole is its only model. -/
theorem document_eq_ok_iff : document d = .ok s ↔ ∃ m, d.models = [m] ∧ model d m = .ok s := by
  unfold document
  split
  · rename_i hmodels
    simp [hmodels]
  · rename_i m hmodels
    simp [hmodels]
  · rename_i models hnil hone
    refine iff_of_false (by simp) ?_
    rintro ⟨m, hm, -⟩
    exact hone m hm

theorem document_of_several (h : 2 ≤ d.models.length) :
    document d = .error (.unsupported (.modelCount d.models.length)) := by
  unfold document
  split <;> simp_all

theorem precomputedAt_eq_ok_iff {index : Nat} :
    precomputedAt d index = .ok s ↔
      ∃ m, d.models[index]? = some (.regression m) ∧ precomputedRegression d m = .ok s := by
  unfold precomputedAt
  split
  · rename_i m hm
    simp [hm]
  · rename_i other hother hm
    refine iff_of_false (by simp) ?_
    rintro ⟨m, hm', -⟩
    rw [hm] at hm'
    exact hother m (Option.some.inj hm')
  · rename_i hm
    simp [hm]

/-- The first model is compiled as if it were the only one. -/
theorem precomputedAt_zero {m : Spec.Model} {rest : List Spec.Model} (h : d.models = m :: rest) :
    precomputedAt d 0 = precomputedAt { d with models := [m] } 0 := by
  unfold precomputedAt
  rw [h]
  cases m <;> rfl

end Compile

namespace CommandLine

variable {o : Options} {d : Document} {s : Scorer} {model input : File}

/-! ## 2. Runs -/

def File.Describes (f : File) (d : Document) : Prop :=
  ∃ text, f.content = some text ∧ Engine.parse text = .ok d

theorem run_of_error (hd : model.Describes d) {e : Fault} (h : compile o d = .error e) :
    run o model input = .failed s!"Error: {e.message}" := by
  obtain ⟨text, htext, hparse⟩ := hd
  unfold run
  rw [htext]
  simp only [hparse, Outcome.ok_bind, h]

/-- A run sees no more of a document than what it compiles to. -/
theorem run_congr {model' : File} {d' : Document} (hd : model.Describes d) (hd' : model'.Describes d')
    (h : compile o d = compile o d') : run o model input = run o model' input := by
  obtain ⟨text, htext, hparse⟩ := hd
  obtain ⟨text', htext', hparse'⟩ := hd'
  unfold run
  rw [htext, htext']
  simp only [hparse, hparse', Outcome.ok_bind, h]

/-! ## 3. Options without an index -/

def severalModels (count : Nat) : String :=
  s!"Error: Unsupported model spec: document contains {count} models; only single-model documents are implemented"

theorem compile_whole (hindex : o.modelIndex = none) (hdocuments : o.precomputed = false) :
    compile o d = Compile.document d := by
  unfold compile
  rw [hindex, hdocuments]

theorem compile_first (hindex : o.modelIndex = none) (hvectors : o.precomputed = true) :
    compile o d = Compile.precomputedAt d 0 := by
  unfold compile
  rw [hindex, hvectors]
  rfl

/-- A run without an index that scores documents compiles the only model of its document, and fails where there are
several. A run without an index that scores vectors compiles the first model whether or not others follow: it prints
what it would print were there no others. No run finds a model in a document without models. -/
theorem compile_without_index (hindex : o.modelIndex = none) (d : Document) :
    (o.precomputed = false →
      (∀ s, compile o d = .ok s ↔ ∃ m, d.models = [m] ∧ Compile.model d m = .ok s) ∧
      (2 ≤ d.models.length → ∀ model input : File, model.Describes d →
        run o model input = .failed (severalModels d.models.length))) ∧
    (o.precomputed = true →
      (∀ s, compile o d = .ok s ↔
        ∃ m rest, d.models = .regression m :: rest ∧ Compile.precomputedRegression d m = .ok s) ∧
      (∀ m rest, d.models = m :: rest → ∀ model only input : File, model.Describes d →
        only.Describes { d with models := [m] } → run o model input = run o only input)) ∧
    (d.models = [] →
      compile o d = .error (.malformed (if o.precomputed then .noModelAt 0 else .noModel))) := by
  refine ⟨fun hdocuments => ⟨fun s => ?_, fun hseveral model input hd => ?_⟩, fun hvectors => ⟨fun s => ?_, ?_⟩, ?_⟩
  · rw [compile_whole hindex hdocuments]
    exact Compile.document_eq_ok_iff
  · have herror : compile o d = .error (.unsupported (.modelCount d.models.length)) := by
      rw [compile_whole hindex hdocuments, Compile.document_of_several hseveral]
    rw [run_of_error hd herror]
    rfl
  · rw [compile_first hindex hvectors, Compile.precomputedAt_eq_ok_iff]
    refine exists_congr fun m => ?_
    cases hmodels : d.models with
    | nil => simp
    | cons first rest => simp [eq_comm]
  -- the models behind the first one are not looked at
  · intro m rest hmodels model only input hd honly
    refine run_congr hd honly ?_
    rw [compile_first hindex hvectors, compile_first hindex hvectors, Compile.precomputedAt_zero hmodels]
  · intro hmodels
    cases hprecomputed : o.precomputed with
    | false =>
      rw [compile_whole hindex hprecomputed]
      unfold Compile.document
      rw [hmodels]
      rfl
    | true =>
      rw [compile_first hindex hprecomputed]
      unfold Compile.precomputedAt
      rw [hmodels]
      rfl

/-! The support vector machine of hours of work twice in one document. -/

def hoursTwice : Document :=
  { Compile.hoursDocument with
    models := [.regression Compile.hoursRegression, .regression Compile.hoursRegression] }

/-- The two models are one too many for documents, and the first one does for vectors. -/
theorem compile_without_index_hours :
    (∀ s, compile ⟨none, false, false⟩ hoursTwice ≠ .ok s) ∧
      ∃ s, compile ⟨none, true, false⟩ hoursTwice = .ok s ∧
        Compile.precomputedRegression hoursTwice Compile.hoursRegression = .ok s := by
  constructor
  · intro s hs
    obtain ⟨m, hm, -⟩ := (((compile_without_index rfl hoursTwice).1 rfl).1 s).mp hs
    cases hm
  · have hregression : (Compile.precomputedRegression hoursTwice Compile.hoursRegression).isOk = true := by
      decide +kernel
    obtain ⟨s, hs⟩ := Outcome.exists_of_isOk hregression
    exact ⟨s, (((compile_without_index rfl hoursTwice).2.1 rfl).1 s).mpr ⟨_, _, rfl, hs⟩, hs⟩

/-- Without an index, a document with two models compiles if its vectors are supplied. -/
theorem several_models_compiled :
    ¬ ∀ (o : Options) (d : Document) (s : Scorer), o.modelIndex = none → compile o d = .ok s →
      d.models.length = 1 := by
  intro h
  have hcompiles : (compile ⟨none, true, false⟩ hoursTwice).isOk = true := by decide +kernel
  obtain ⟨s, hs⟩ := Outcome.exists_of_isOk hcompiles
  exact absurd (h _ _ _ rfl hs) (by decide)

end CommandLine

end Scoring
