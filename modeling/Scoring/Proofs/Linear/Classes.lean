import Scoring.Proofs.Linear.Score
import Scoring.Proofs.Scorer.Refusal

/-!
# Classes — the two answers of a linear model

Whatever it is asked, a linear model answers one of its two classes (`answersOnly_of_linear`). The three compilers of
linear models take both from the target field, so that between them they cover what the field declares
(`two_classes`). That the positive one is declared is not seen to: a target field that declares one value may be
answered with a class that it does not have (`modeled_class_declared`, `undeclared_answer`).
-/

namespace Scoring

open Spec (Document GeneralRegression)

/-! ## 1. Answers of a scorer -/

/-- Every class that a scorer answers is of some kind, through whichever entry, with an explanation or without. -/
structure Scorer.AnswersOnly (s : Scorer) (P : String → Prop) : Prop where
  run : ∀ document params a, s.run document params = .ok a → P a.predicted
  label : ∀ r l, s.label r = .ok l → P l
  explanation : ∀ r e, s.explanation r = .ok e → P e.label
  labelVector : ∀ w l, s.labelVector w = .ok l → P l
  explainVector : ∀ w e, s.explainVector w = .ok e → P e.label

namespace Scorer

variable {s : Scorer} {P Q : String → Prop}

theorem AnswersOnly.imp (h : s.AnswersOnly P) (hPQ : ∀ l, P l → Q l) : s.AnswersOnly Q where
  run document params a ha := hPQ _ (h.run document params a ha)
  label r l hl := hPQ _ (h.label r l hl)
  explanation r e he := hPQ _ (h.explanation r e he)
  labelVector w l hl := hPQ _ (h.labelVector w l hl)
  explainVector w e he := hPQ _ (h.explainVector w e he)

/-- A class is answered where it is explained, so the explanations are all that has to be looked at. -/
theorem answersOnly_of_explain (h : ∀ input e, s.explain input = .ok e → P e.label) : s.AnswersOnly P := by
  have hclass : ∀ input l, s.classify input = .ok l → P l := by
    intro input l hl
    rw [classify_eq, Outcome.map_eq_ok] at hl
    obtain ⟨e, he, rfl⟩ := hl
    exact h input e he
  refine ⟨?_, ?_, ?_, fun w => hclass (.vector w), fun w => h (.vector w)⟩
  · intro document params a ha
    rw [run_eq, Outcome.bind_eq_ok] at ha
    obtain ⟨input, -, ha⟩ := ha
    unfold answer at ha
    split at ha
    · obtain ⟨e, he, hexplained⟩ := Outcome.bind_eq_ok.mp ha
      cases hexplained
      exact h input e he
    · obtain ⟨l, hl, hlabelled⟩ := Outcome.bind_eq_ok.mp ha
      cases hlabelled
      exact hclass input l hl
  · intro r l hl
    obtain ⟨input, -, hl⟩ := Outcome.bind_eq_ok.mp hl
    exact hclass input l hl
  · intro r e he
    obtain ⟨input, -, he⟩ := Outcome.bind_eq_ok.mp he
    exact h input e he

end Scorer

def Classes.Has (c : Classes) (label : String) : Prop :=
  label = c.positive ∨ label = c.negative

/-- A linear model answers one of its classes. -/
theorem Scorer.answersOnly_of_linear {s : Scorer} {m : LinearModel}
    (h : s.classifier = .logistic m ∨ s.classifier = .margin m) : s.AnswersOnly m.classes.Has := by
  refine answersOnly_of_explain fun input e he => ?_
  unfold explain at he
  rcases h with h | h
  · cases input with
    | observation o =>
      rw [h] at he
      cases he
    | vector w =>
      rw [h] at he
      obtain ⟨score, -, he⟩ := Outcome.bind_eq_ok.mp he
      cases he
      exact ite_eq_or_eq _ _ _
  · cases input with
    | observation o =>
      rw [h] at he
      cases he
    | vector w =>
      rw [h] at he
      obtain ⟨margin, -, he⟩ := Outcome.bind_eq_ok.mp he
      cases he
      exact ite_eq_or_eq _ _ _

def Scorer.answered? (s : Scorer) (document : Json) : Option String :=
  (s.run document .labelOnly).toOption.map Answer.predicted

theorem Scorer.exists_of_answered {x : Outcome Scorer} {document : Json} {l : String}
    (h : x.toOption.map (·.answered? document) = some (some l)) :
    ∃ s a, x = .ok s ∧ s.run document .labelOnly = .ok a ∧ a.predicted = l := by
  obtain ⟨s, hs, hanswered⟩ := Outcome.exists_of_toOption_map h
  obtain ⟨a, ha, hl⟩ := Outcome.exists_of_toOption_map hanswered
  exact ⟨s, a, hs, ha, hl⟩

/-! ## 2. Compiled models -/

namespace Compile

/-- Both compilers of a regression take the classes from its tables. -/
theorem classes_of_eitherRegression {d : Document} {m : Spec.Regression} {s : Scorer}
    (h : regression d m = .ok s ∨ precomputedRegression d m = .ok s) : ∃ kind l table rest target,
      s.classifier = LinearKind.classifier kind l ∧ m.tables = [table, rest] ∧
        TableClasses d m table rest target l.classes := by
  rcases h with h | h
  · exact classes_of_regression h
  · exact classes_of_precomputedRegression h

/-- The classes of a compiled linear model split its target field: the negative class is a declared value, it differs
from the positive one, and each declared value is one of the two. The positive class is what the coefficients of a
general regression name, or the first table of a regression; a class that the second table names is the negative one.
Every answer is one of the two classes. -/
theorem two_classes (d : Document) :
    (∀ m s, generalRegression d m = .ok s → ∃ l target,
      s.classifier = .logistic l ∧ targetField d m.schema = .ok target ∧ l.classes.Splits target ∧
        m.coefficientCells ≠ [] ∧ (∀ c ∈ m.coefficientCells, c.targetCategory = some l.classes.positive) ∧
        s.AnswersOnly l.classes.Has) ∧
    ∀ m s, regression d m = .ok s ∨ precomputedRegression d m = .ok s → ∃ kind l target table rest,
      s.classifier = LinearKind.classifier kind l ∧ targetField d m.schema = .ok target ∧
        l.classes.Splits target ∧ m.tables = [table, rest] ∧ table.targetCategory = some l.classes.positive ∧
        (∀ v, rest.targetCategory = some v → Classes.key target v = Classes.key target l.classes.negative) ∧
        s.AnswersOnly l.classes.Has := by
  constructor
  · intro m s h
    obtain ⟨l, target, hs, htarget, hclasses⟩ := classes_of_generalRegression h
    obtain ⟨⟨hnamed, hall⟩, -⟩ := Classes.ofCategories_eq_ok.mp hclasses
    refine ⟨l, target, hs, htarget, Classes.splits_of_ofCategories hclasses, ?_, fun c hc => ?_,
      Scorer.answersOnly_of_linear (Or.inl hs)⟩
    · rintro hnone
      rw [hnone] at hnamed
      exact hnamed rfl
    · obtain ⟨category, hcategory⟩ := targetCategory_of_mem h hc
      rw [hcategory, hall category (List.mem_filterMap.mpr ⟨c, hc, hcategory⟩)]
  · intro m s h
    obtain ⟨kind, l, table, rest, target, hs, htables, hclasses⟩ := classes_of_eitherRegression h
    exact ⟨kind, l, target, table, rest, hs, hclasses.targetField_eq,
      Classes.splits_of_ofCategories hclasses.ofCategories_eq, htables, hclasses.positive_eq,
      hclasses.key_negative, Scorer.answersOnly_of_linear (hs ▸ classifier_eq kind l)⟩

def codedRegression : Spec.Regression where
  name := none
  function := .classification
  normalization := .none
  schema := ⟨[.active "age", .target "y"]⟩
  transformations := ⟨[]⟩
  tables := [⟨-1.0, some "1", [⟨"age", 1, 0.5⟩], []⟩, ⟨0.0, some "0.0", [], []⟩]

/-- The target lists one of its classes twice, since categories of numeric fields are the same when the numbers are. -/
def codedDocument : Document where
  version := none
  dictionary := ⟨[.continuous "age" .double, .categorical "y" .integer ["0", "1", "1.0"]]⟩
  transformations := ⟨[]⟩
  models := [.regression codedRegression]

def agePayload : Json :=
  .object [("indices", .array [.int 0]), ("values", .array [.float 40.0])]

theorem two_classes_coded :
    (∃ (s : Scorer) (l : LinearModel) (target : Spec.DataField),
      generalRegression gradeDocument gradeGeneralRegression = .ok s ∧ l.classes.Splits target ∧
        s.AnswersOnly l.classes.Has) ∧
    ∃ (s : Scorer) (l : LinearModel) (target : Spec.DataField) (a : Answer),
      precomputedRegression codedDocument codedRegression = .ok s ∧ l.classes.Splits target ∧
        Classes.key target "0.0" = Classes.key target l.classes.negative ∧
        s.run agePayload .labelOnly = .ok a ∧ a.predicted = "1" ∧ l.classes.Has a.predicted := by
  constructor
  · have hok : (generalRegression gradeDocument gradeGeneralRegression).isOk = true := by decide +kernel
    obtain ⟨s, hs⟩ := Outcome.exists_of_isOk hok
    obtain ⟨l, target, -, -, hsplits, -, -, hanswers⟩ := (two_classes gradeDocument).1 _ s hs
    exact ⟨s, l, target, hs, hsplits, hanswers⟩
  · have hrun : (precomputedRegression codedDocument codedRegression).toOption.map
        (·.answered? agePayload) = some (some "1") := by decide +kernel
    obtain ⟨s, a, hs, ha, hone⟩ := Scorer.exists_of_answered hrun
    obtain ⟨kind, l, target, table, rest, -, -, hsplits, htables, -, hnegative, hanswers⟩ :=
      (two_classes codedDocument).2 _ s (Or.inr hs)
    cases htables
    exact ⟨s, l, target, a, hs, hsplits, hnegative "0.0" rfl, ha, hone, hanswers.run _ _ _ ha⟩

/-! ## 3. Undeclared classes -/

/-- Unless the target declares a single value, a linear model answers declared classes only. -/
theorem answersOnly_declared {s : Scorer} {l : LinearModel} {categories : List String} {target : Spec.DataField}
    (hs : s.classifier = .logistic l ∨ s.classifier = .margin l)
    (h : Classes.ofCategories categories target = .ok l.classes) (hvalues : target.values.length ≠ 1) :
    s.AnswersOnly (Classes.Declared target) := by
  have hpositive : Classes.Declared target l.classes.positive := by
    rw [Classes.declared_positive_iff h]
    intro hone
    exact hvalues (congrArg List.length hone)
  refine (Scorer.answersOnly_of_linear hs).imp fun label hlabel => ?_
  rcases hlabel with rfl | rfl
  · exact hpositive
  · exact (Classes.splits_of_ofCategories h).declared_negative

/-- Where classes are found on a target field, the modeled one is declared unless the only declared value is the other
class. So the answers of a compiled linear model are declared classes whenever the target does not declare a single
value. -/
theorem modeled_class_declared (d : Document) :
    (∀ categories target c, Classes.ofCategories categories target = .ok c →
      (Classes.Declared target c.positive ↔ target.values ≠ [c.negative])) ∧
    (∀ m s, generalRegression d m = .ok s → ∃ target, targetField d m.schema = .ok target ∧
      (target.values.length ≠ 1 → s.AnswersOnly (Classes.Declared target))) ∧
    ∀ m s, regression d m = .ok s ∨ precomputedRegression d m = .ok s →
      ∃ target, targetField d m.schema = .ok target ∧
        (target.values.length ≠ 1 → s.AnswersOnly (Classes.Declared target)) := by
  refine ⟨fun categories target c h => Classes.declared_positive_iff h, fun m s h => ?_, fun m s h => ?_⟩
  · obtain ⟨l, target, hs, htarget, hclasses⟩ := classes_of_generalRegression h
    exact ⟨target, htarget, answersOnly_declared (Or.inl hs) hclasses⟩
  · obtain ⟨kind, l, table, rest, target, hs, -, hclasses⟩ := classes_of_eitherRegression h
    exact ⟨target, hclasses.targetField_eq,
      answersOnly_declared (hs ▸ classifier_eq kind l) hclasses.ofCategories_eq⟩

/-- The target that lists a class twice does not list a single value, and its model answers declared classes. -/
theorem modeled_class_declared_coded :
    Classes.Declared (.categorical "y" .integer ["0", "1", "1.0"]) "1" ∧
    (∃ s target, generalRegression gradeDocument gradeGeneralRegression = .ok s ∧
      targetField gradeDocument gradeSchema = .ok target ∧ s.AnswersOnly (Classes.Declared target)) ∧
    ∃ s target, precomputedRegression codedDocument codedRegression = .ok s ∧
      targetField codedDocument codedRegression.schema = .ok target ∧
      s.AnswersOnly (Classes.Declared target) := by
  refine ⟨?_, ?_, ?_⟩
  · have hfound : Classes.ofCategories ["1", "1"] (.categorical "y" .integer ["0", "1", "1.0"]) =
        .ok ⟨"1", "0"⟩ := by
      rw [Classes.ofCategories_eq_ok]
      decide +kernel
    exact ((modeled_class_declared codedDocument).1 _ _ _ hfound).mpr (by decide)
  · have hok : (generalRegression gradeDocument gradeGeneralRegression).isOk = true := by decide +kernel
    obtain ⟨s, hs⟩ := Outcome.exists_of_isOk hok
    obtain ⟨target, htarget, hanswers⟩ := (modeled_class_declared gradeDocument).2.1 _ s hs
    refine ⟨s, target, hs, htarget, hanswers ?_⟩
    cases htarget
    decide
  · have hok : (precomputedRegression codedDocument codedRegression).isOk = true := by decide +kernel
    obtain ⟨s, hs⟩ := Outcome.exists_of_isOk hok
    obtain ⟨target, htarget, hanswers⟩ := (modeled_class_declared codedDocument).2.2 _ s (Or.inr hs)
    refine ⟨s, target, hs, htarget, hanswers ?_⟩
    cases htarget
    decide

def soleDocument : Document where
  version := none
  dictionary := ⟨[.continuous "age" .double, .categorical "y" .string ["no"]]⟩
  transformations := ⟨[]⟩
  models := []

/-- The first table models a class that no field declares, the second one names the one that is declared. -/
def soleRegression : Spec.Regression where
  name := none
  function := .classification
  normalization := .none
  schema := ⟨[.active "age", .target "y"]⟩
  transformations := ⟨[]⟩
  tables := [⟨-1.0, some "yes", [⟨"age", 1, 0.5⟩], []⟩, ⟨0.0, some "no", [], []⟩]

/-- The classes are found, and the model answers the one that is not declared. -/
theorem undeclared_answer :
    Classes.ofCategories ["yes"] (.categorical "y" .string ["no"]) = .ok ⟨"yes", "no"⟩ ∧
    targetField soleDocument soleRegression.schema = .ok (.categorical "y" .string ["no"]) ∧
    ¬ Classes.Declared (.categorical "y" .string ["no"]) "yes" ∧
    ∃ s a, precomputedRegression soleDocument soleRegression = .ok s ∧
      s.run agePayload .labelOnly = .ok a ∧ a.predicted = "yes" := by
  have hclasses : Classes.ofCategories ["yes"] (.categorical "y" .string ["no"]) = .ok ⟨"yes", "no"⟩ := by
    rw [Classes.ofCategories_eq_ok]
    decide
  refine ⟨hclasses, rfl, ?_, ?_⟩
  · rw [Classes.declared_positive_iff hclasses]
    decide
  · have hrun : (precomputedRegression soleDocument soleRegression).toOption.map
        (·.answered? agePayload) = some (some "yes") := by decide +kernel
    exact Scorer.exists_of_answered hrun

end Compile

end Scoring
