import Scoring.Proofs.Compile
import Scoring.Proofs.Layout.Alignment
import Scoring.Proofs.NaiveBayes
import Scoring.Proofs.Tree.Stop

/-!
# Fit — classifiers and pipelines that belong together

A pipeline and a classifier are made apart and meet only when a document is scored: through the size of a vector, or
through the names of fields. `Scorer.Fits` says that they agree, and every compiler keeps them so.
-/

namespace Scoring

open Spec (Document)

structure LinearModel.Fits (m : LinearModel) (size : Nat) : Prop where
  coefficients : m.coefficients.length = size
  parameters : ∀ slots ∈ m.parameters, slots.length = size

inductive Scorer.Fits : Scorer → Prop
  | vector {name : Option String} {v : Vectorizer} {c : Classifier} {m : LinearModel}
      (linear : c = .logistic m ∨ c = .margin m) (spans : ∀ span ∈ v.spans, span.WellFormed)
      (fits : m.Fits v.size) : Scorer.Fits ⟨name, .vector v, c⟩
  | precomputed {name : Option String} {size : Nat} {c : Classifier} {m : LinearModel}
      (linear : c = .logistic m ∨ c = .margin m) (fits : m.Fits size) :
      Scorer.Fits ⟨name, .precomputed size, c⟩
  | tree {name : Option String} {i : Intake} {t : DecisionTree} (fields : t.fields = i.names)
      (labelled : t.Labelled) : Scorer.Fits ⟨name, .fields i, .tree t⟩
  | bayes {name : Option String} {i : Intake} {m : NaiveBayes} (fields : m.fields = i.names)
      (fits : m.Fits) : Scorer.Fits ⟨name, .fields i, .bayes m⟩

theorem Scorer.Fits.wellFormed {s : Scorer} {v : Vectorizer} (h : s.Fits) (hv : s.pipeline = .vector v) :
    ∀ span ∈ v.spans, span.WellFormed := by
  cases h with
  | vector linear spans fits =>
    cases hv
    exact spans
  | precomputed | tree | bayes => cases hv

namespace Layout.Arrangement

variable {d : Declarations} {s : Scope} {l : Layout}

theorem size_eq (a : Arrangement d s l) {v : Vectorizer} (hv : v.spans = l.spans) :
    v.size = l.slots.length := by
  rw [v.size_eq_sum, hv, a.length_slots]

/-- The coefficients of a layout fit the vectors of its spans. -/
theorem fits (a : Arrangement d s l) {v : Vectorizer} (hv : v.spans = l.spans) (betas : Table Float)
    (intercept : Float) (classes : Classes) :
    (⟨l.slots.coefficients betas, intercept, classes, some l.slots⟩ : LinearModel).Fits v.size where
  coefficients := by
    rw [a.size_eq hv]
    exact List.length_map _
  parameters slots hslots := by
    cases hslots
    exact (a.size_eq hv).symm

end Layout.Arrangement

namespace Compile

variable {d : Document} {s : Scorer}

theorem fits_of_generalRegression {m : Spec.GeneralRegression} (h : generalRegression d m = .ok s) :
    s.Fits := by
  obtain ⟨layout, betas, classes, v, hlayout, -, hv, rfl⟩ := exists_of_generalRegression h
  obtain ⟨a⟩ := Layout.nonempty_arrangement hlayout
  exact .vector (Or.inl rfl) (hv ▸ a.wellFormed) (a.fits hv betas 0.0 classes)

theorem fits_of_regression {m : Spec.Regression} (h : regression d m = .ok s) : s.Fits := by
  obtain ⟨kind, table, rest, layout, classes, v, -, hlayout, hv, rfl⟩ := exists_of_regression h
  obtain ⟨a⟩ := Layout.nonempty_arrangement hlayout
  exact .vector (classifier_eq kind _) (hv ▸ a.wellFormed) (a.fits hv _ 0.0 classes)

theorem fits_of_precomputedRegression {m : Spec.Regression} (h : precomputedRegression d m = .ok s) :
    s.Fits := by
  obtain ⟨kind, coefficients, intercept, classes, rfl⟩ := exists_of_precomputedRegression h
  exact .precomputed (classifier_eq kind _) ⟨rfl, fun slots hslots => by cases hslots⟩

theorem fits_of_tree {m : Spec.Tree} (h : tree d m = .ok s) : s.Fits := by
  obtain ⟨intake, t, -, ht, rfl⟩ := exists_of_tree h
  exact .tree (DecisionTree.exists_of_ofRoot ht).2.1 (DecisionTree.labelled_of_ofRoot ht)

theorem fits_of_naiveBayes {m : Spec.NaiveBayes} (h : naiveBayes d m = .ok s) : s.Fits := by
  obtain ⟨intake, bayes, -, hbayes, rfl⟩ := exists_of_naiveBayes h
  obtain ⟨hfits, hfields⟩ := NaiveBayes.fits_of_ofSpec hbayes
  exact .bayes hfields hfits

theorem fits_of_model {m : Spec.Model} (h : model d m = .ok s) : s.Fits := by
  cases m with
  | generalRegression m => exact fits_of_generalRegression h
  | regression m => exact fits_of_regression h
  | tree m => exact fits_of_tree h
  | naiveBayes m => exact fits_of_naiveBayes h
  | other family content => cases h

theorem fits_of_modelAt {index : Nat} (h : modelAt d index = .ok s) : s.Fits := by
  unfold modelAt at h
  split at h
  · exact fits_of_model h
  · cases h

theorem fits_of_precomputedAt {index : Nat} (h : precomputedAt d index = .ok s) : s.Fits := by
  unfold precomputedAt at h
  split at h
  · exact fits_of_precomputedRegression h
  · cases h
  · cases h

end Compile

end Scoring
