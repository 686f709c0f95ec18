import Scoring.Proofs.Scorer.Fit
import Scoring.Proofs.Target

/-!
# Labels — the classes of a compiled model differ

An explanation lists its numbers by the names of classes, so classes of one name would overwrite each other. Every
compiler sees to it that this does not happen: the two classes of a linear model have different keys, and a naive Bayes
model names no class twice (`Classifier.Separates`).
-/

namespace Scoring

open Spec (Document)

/-! ## 1. Classes -/

theorem Classes.positive_ne_negative {categories : List String} {target : Spec.DataField} {c : Classes}
    (h : ofCategories categories target = .ok c) : c.positive ≠ c.negative := by
  intro heq
  exact (splits_of_ofCategories h).key_ne (congrArg (key target) heq)

theorem NaiveBayes.nodup_classes {m : Spec.NaiveBayes} {i : Intake} {b : NaiveBayes}
    (h : ofSpec m i = .ok b) : b.classes.Nodup := by
  obtain ⟨-, hlength, -, hclasses, -⟩ := eq_of_ofSpec h
  rw [hclasses]
  exact nodup_of_length_eraseDups hlength

/-! ## 2. Compiled models -/

/-- The classes of a classifier have different names, with a number for each where it holds numbers per class. -/
def Classifier.Separates : Classifier → Prop
  | .logistic m | .margin m => m.classes.positive ≠ m.classes.negative
  | .tree _ => True
  | .bayes m => m.classes.Nodup ∧ m.Fits

namespace Compile

variable {d : Document} {s : Scorer}

/-- Classes of a target field have different names. -/
theorem separates_of_classes (kind : LinearKind) {m : LinearModel} {categories : List String}
    {target : Spec.DataField} (h : Classes.ofCategories categories target = .ok m.classes) :
    (kind.classifier m).Separates := by
  have hne := Classes.positive_ne_negative h
  cases kind
  · exact hne
  · exact hne

theorem separates_of_generalRegression {m : Spec.GeneralRegression} (h : generalRegression d m = .ok s) :
    s.classifier.Separates := by
  obtain ⟨l, target, hs, -, hclasses⟩ := classes_of_generalRegression h
  exact hs ▸ separates_of_classes .logistic hclasses

theorem separates_of_regression {m : Spec.Regression} (h : regression d m = .ok s) :
    s.classifier.Separates := by
  obtain ⟨kind, l, table, rest, target, hs, -, hclasses⟩ := classes_of_regression h
  exact hs ▸ separates_of_classes kind hclasses.ofCategories_eq

theorem separates_of_precomputedRegression {m : Spec.Regression}
    (h : precomputedRegression d m = .ok s) : s.classifier.Separates := by
  obtain ⟨kind, l, table, rest, target, hs, -, hclasses⟩ := classes_of_precomputedRegression h
  exact hs ▸ separates_of_classes kind hclasses.ofCategories_eq

theorem separates_of_naiveBayes {m : Spec.NaiveBayes} (h : naiveBayes d m = .ok s) :
    s.classifier.Separates := by
  obtain ⟨intake, bayes, -, hbayes, rfl⟩ := exists_of_naiveBayes h
  exact ⟨NaiveBayes.nodup_classes hbayes, (NaiveBayes.fits_of_ofSpec hbayes).1⟩

theorem separates_of_model {m : Spec.Model} (h : model d m = .ok s) : s.classifier.Separates := by
  cases m with
  | generalRegression m => exact separates_of_generalRegression h
  | regression m => exact separates_of_regression h
  | tree m =>
    obtain ⟨intake, t, -, -, rfl⟩ := exists_of_tree h
    trivial
  | naiveBayes m => exact separates_of_naiveBayes h
  | other family content => cases h

theorem separates_of_modelAt {index : Nat} (h : modelAt d index = .ok s) : s.classifier.Separates := by
  unfold modelAt at h
  split at h
  · exact separates_of_model h
  · cases h

theorem separates_of_document (h : document d = .ok s) : s.classifier.Separates := by
  unfold document at h
  split at h
  · cases h
  · exact separates_of_model h
  · cases h

theorem separates_of_precomputedAt {index : Nat} (h : precomputedAt d index = .ok s) :
    s.classifier.Separates := by
  unfold precomputedAt at h
  split at h
  · exact separates_of_precomputedRegression h
  · cases h
  · cases h

end Compile

end Scoring
