import Scoring.Proofs.Condition.Known
import Scoring.Proofs.Scalar.Key

/-!
# Membership — one literal as an operand and as a member

A test for equality reads its literal and compares values, a test for membership takes the literal as it is written and
compares keys. On texts the two differ by the blanks around the literal, on numbers by zeros, NaN and single precision
(`equal_and_isIn`).
-/

namespace Scoring

open Spec (DataType)

/-! ## 1. Unambiguous literals -/

namespace Scalar

instance (type : DataType) (x y : Float) : Decidable (HeldAlike type x y) :=
  inferInstanceAs (Decidable (if type = .float then Decimal.narrow x = Decimal.narrow y else x = y))

/-- A literal that asks the same of a value when it is read as when it is taken as a key: a text has no blanks around
it, and a number is equal to itself only. In single precision many numbers have one key. -/
def Unambiguous (type : DataType) (literal : String) : Prop :=
  match type with
  | .string => Text.trim literal = literal
  | .double | .integer => ∀ x, Decimal.float? (Text.trim literal) = some x → x ≠ Float.nan ∧ x ≠ 0 ∧ x ≠ -0
  | .float | .boolean | .date => False

/-- A number that is not NaN and no zero is equal to what is held as the same number, and to nothing else. -/
theorem beq_eq_decide_heldAlike {type : DataType} (htype : type ≠ .float) {x : Float} (hnan : x ≠ Float.nan)
    (hzero : x ≠ 0) (hzero' : x ≠ -0) (y : Float) : (y == x) = decide (HeldAlike type y x) := by
  rw [Bool.eq_iff_iff, Float.beq_iff_ne_nan_and_eq, decide_eq_true_iff, HeldAlike, if_neg htype]
  constructor
  · rintro ⟨-, -, heq | ⟨-, hx⟩ | ⟨-, hx⟩⟩
    · exact heq
    · exact absurd hx hzero'
    · exact absurd hx hzero
  · rintro rfl
    exact ⟨hnan, hnan, .inl rfl⟩

end Scalar

namespace Condition

variable {i : Intake} {r : Record} {o : Observation} {field literal : String} {type : DataType}

/-! ## 2. The two tests -/

theorem ofPredicate_equal {f : Field} (hf : i.find? field = some f) {c : Condition}
    (h : ofPredicate i (.simple field .equal (some literal)) = .ok c) :
    ∃ operand, operand.Reads f.dataType literal ∧ c = .compare field .equal operand := by
  obtain ⟨g, hg, h⟩ := ofPredicate_simple_eq_ok.mp h
  rw [hf, Option.some.injEq] at hg
  subst hg
  rw [ofSimple, ofLiteral_eq_ok] at h
  obtain ⟨_, operand, hliteral, -, hreads, rfl⟩ := h
  cases hliteral
  exact ⟨operand, hreads, rfl⟩

def isMember (field : String) (type : DataType) (literal : String) : Condition :=
  .inSet field type [(Scalar.string literal).key type] false

theorem ofPredicate_isIn {f : Field} (hf : i.find? field = some f) {c : Condition}
    (h : ofPredicate i (.set field .isIn [literal]) = .ok c) : c = isMember field f.dataType literal := by
  obtain ⟨g, hg, rfl⟩ := ofPredicate_set_eq_ok.mp h
  rw [hf, Option.some.injEq] at hg
  subst hg
  rfl

theorem evaluate_equal {operand v : Scalar} (hv : o.value? field = some v) :
    evaluate o (.compare field .equal operand) = Comparison.equal.scalars v operand := by
  rw [evaluate, hv, Option.bind_some]

theorem evaluate_isMember {v : Scalar} (hv : o.value? field = some v) :
    evaluate o (isMember field type literal) = some (decide (v.key type = (Scalar.string literal).key type)) := by
  rw [isMember, evaluate, hv, Option.map_some]
  simp only [List.mem_singleton, Bool.bne_false]

theorem answers_of_missing (operand : Scalar) (type : DataType) (literal : String) (hv : o.value? field = none) :
    evaluate o (.compare field .equal operand) = none ∧ evaluate o (isMember field type literal) = none := by
  rw [isMember, evaluate, evaluate, hv]
  exact ⟨rfl, rfl⟩

theorem answers_of_text {operand : Scalar} (hreads : operand.Reads type literal) (hother : type.isNumeric = false)
    {t : String} (hv : o.value? field = some (.string t)) :
    type = .string ∧ evaluate o (.compare field .equal operand) = some (t == Text.trim literal) ∧
      evaluate o (isMember field type literal) = some (t == literal) := by
  rw [evaluate_equal hv, evaluate_isMember hv, Scalar.key_of_text hother, Scalar.key_of_text hother]
  cases hreads with
  | number numeric _ =>
    rw [numeric] at hother
    cases hother
  | text string => exact ⟨string, rfl, rfl⟩

theorem answers_of_number {operand : Scalar} (hreads : operand.Reads type literal) (hnumeric : type.isNumeric = true)
    {y : Float} (hv : o.value? field = some (.double y)) :
    ∃ x, Decimal.float? (Text.trim literal) = some x ∧
      evaluate o (.compare field .equal operand) = some (y == x) ∧
      evaluate o (isMember field type literal) = some (decide (Scalar.HeldAlike type y x)) := by
  rw [evaluate_equal hv, evaluate_isMember hv]
  cases hreads with
  | @number _ x reads =>
    refine ⟨x, reads, rfl, ?_⟩
    rw [Scalar.key_of_number hnumeric (v := .double y) rfl, Scalar.key_of_number hnumeric (v := .string literal) reads]
    simp only [Scalar.numberKey_inj]
  | text string =>
    rw [string] at hnumeric
    cases hnumeric

/-! ## 3. Agreement -/

theorem agree_of_number (hnumeric : type.isNumeric = true) (hliteral : Scalar.Unambiguous type literal) {x : Float}
    (hx : Decimal.float? (Text.trim literal) = some x) (y : Float) : (y == x) = decide (Scalar.HeldAlike type y x) := by
  cases type with
  | double | integer =>
    obtain ⟨hnan, hzero, hzero'⟩ := hliteral x hx
    exact Scalar.beq_eq_decide_heldAlike (by decide) hnan hzero hzero' y
  | float => exact hliteral.elim
  | boolean | date | string => cases hnumeric

/-- What a test for equality with a literal and a test for membership in the set of it answer. Both are unknown without
a value; on a text the one asks for the trimmed literal and the other for the literal itself; on a number the one asks
for an equal number and the other for one that the field holds alike. They agree on every observation if the literal is
unambiguous. -/
theorem equal_and_isIn {f : Field} (hf : i.find? field = some f) {equal member : Condition}
    (hequal : ofPredicate i (.simple field .equal (some literal)) = .ok equal)
    (hmember : ofPredicate i (.set field .isIn [literal]) = .ok member) (ho : i.observe r = .ok o) :
    (o.value? field = none → evaluate o equal = none ∧ evaluate o member = none) ∧
      (∀ t, o.value? field = some (.string t) →
        evaluate o equal = some (t == Text.trim literal) ∧ evaluate o member = some (t == literal)) ∧
      (∀ y, o.value? field = some (.double y) → ∃ x, Decimal.float? (Text.trim literal) = some x ∧
        evaluate o equal = some (y == x) ∧ evaluate o member = some (decide (Scalar.HeldAlike f.dataType y x))) ∧
      (Scalar.Unambiguous f.dataType literal → evaluate o equal = evaluate o member) := by
  obtain ⟨operand, hreads, rfl⟩ := ofPredicate_equal hf hequal
  rw [ofPredicate_isIn hf hmember]
  refine ⟨answers_of_missing operand f.dataType literal, fun t hv => ?_, fun y hv => ?_, fun hliteral => ?_⟩
  · cases Intake.isOf_of_observe ho hf hv with
    | text other _ => exact (answers_of_text hreads other hv).2
  · cases Intake.isOf_of_observe ho hf hv with
    | number numeric _ => exact answers_of_number hreads numeric hv
  · cases hv : o.value? field with
    | none =>
      obtain ⟨hanswer, hanswer'⟩ := answers_of_missing operand f.dataType literal hv
      rw [hanswer, hanswer']
    | some v =>
      cases Intake.isOf_of_observe ho hf hv with
      | text other t =>
        obtain ⟨hstring, hanswer, hanswer'⟩ := answers_of_text hreads other hv
        rw [hstring] at hliteral
        rw [hanswer, hanswer', show Text.trim literal = literal from hliteral]
      | number numeric y =>
        obtain ⟨x, hx, hanswer, hanswer'⟩ := answers_of_number hreads numeric hv
        rw [hanswer, hanswer', agree_of_number numeric hliteral hx]

def privateWorker : Record :=
  .ofJson (.object [("work", .string "Private")])

theorem exists_observe_private : ∃ o, workerIntake.observe privateWorker = .ok o ∧
    o.value? "work" = some (.string "Private") := by
  have hvalue : (workerIntake.observe privateWorker).toOption.map (fun o =>
      (o.value? "work").bind Scalar.toText?) = some (some "Private") := by decide +kernel
  obtain ⟨o, ho, hvalue⟩ := Outcome.exists_of_toOption_map hvalue
  obtain ⟨v, hv, hvalue⟩ := Option.bind_eq_some_iff.mp hvalue
  obtain rfl : v = .string "Private" := Scalar.eq_of_toText? hvalue
  exact ⟨o, ho, hv⟩

theorem equal_and_isIn_private : ∃ equal member o,
    ofPredicate workerIntake (.simple "work" .equal (some "Private")) = .ok equal ∧
    ofPredicate workerIntake (.set "work" .isIn ["Private"]) = .ok member ∧
    workerIntake.observe privateWorker = .ok o ∧ evaluate o equal = evaluate o member := by
  obtain ⟨o, ho, -⟩ := exists_observe_private
  have hplain : Scalar.Unambiguous .string "Private" := by
    show Text.trim "Private" = "Private"
    decide +kernel
  have hwork : workerIntake.find? "work" =
      some ⟨"work", .categorical "work" .string ["Private"], .categorical, .string, [.string "Private"]⟩ := rfl
  exact ⟨.compare "work" .equal (.string (Text.trim "Private")), isMember "work" .string "Private", o, rfl, rfl, ho,
    (equal_and_isIn hwork rfl rfl ho).2.2.2 hplain⟩

/-- A literal with blanks around it is equal to a text that is not a member of its set. -/
theorem blank_literal_differs : ∃ equal member o,
    ofPredicate workerIntake (.simple "work" .equal (some " Private ")) = .ok equal ∧
    ofPredicate workerIntake (.set "work" .isIn [" Private "]) = .ok member ∧
    workerIntake.observe privateWorker = .ok o ∧ evaluate o equal = some true ∧ evaluate o member = some false := by
  obtain ⟨o, ho, hvalue⟩ := exists_observe_private
  have htrim : Text.trim " Private " = "Private" := by decide +kernel
  refine ⟨.compare "work" .equal (.string (Text.trim " Private ")), isMember "work" .string " Private ", o,
    rfl, rfl, ho, ?_, ?_⟩
  · rw [htrim, evaluate_equal hvalue]
    rfl
  · rw [evaluate_isMember hvalue]
    rfl

end Condition

end Scoring
