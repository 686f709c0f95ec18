import Mathlib.Logic.Relation
import Scoring.Condition
import Scoring.Proofs.Table
import Scoring.Proofs.Truth

/-!
# Condition — what the answer of a condition depends on

A compound condition joins the answers of its parts: `evaluate_ofCompound` is the one place that says how. From it come
the laws of three-valued logic, with the parts of all but surrogates in any order (`evaluate_three_valued`), and that a
value which was missing and is learnt later does not change an answer that was known without it (`evaluate_learnt`).
-/

namespace Scoring

open Spec (CompoundOperator DataType)

namespace Condition

/-! ## 1. Parts -/

def join : CompoundOperator → List Truth → Truth
  | .and => Truth.all
  | .or => Truth.any
  | .xor => Truth.parity
  | .surrogate => Truth.firstKnown

theorem evaluateAll_eq (o : Observation) (parts : List Condition) :
    evaluateAll o parts = parts.map (evaluate o) := by
  induction parts with
  | nil => rw [evaluateAll, List.map_nil]
  | cons p rest ih => rw [evaluateAll, ih, List.map_cons]

theorem evaluate_ofCompound (o : Observation) (op : CompoundOperator) (parts : List Condition) :
    evaluate o (ofCompound op parts) = join op (parts.map (evaluate o)) := by
  rw [← evaluateAll_eq]
  cases op <;> rw [ofCompound, evaluate] <;> rfl

theorem evaluate_and (o : Observation) (parts : List Condition) :
    evaluate o (.and parts) = Truth.all (parts.map (evaluate o)) :=
  evaluate_ofCompound o .and parts

theorem evaluate_or (o : Observation) (parts : List Condition) :
    evaluate o (.or parts) = Truth.any (parts.map (evaluate o)) :=
  evaluate_ofCompound o .or parts

theorem evaluate_xor (o : Observation) (parts : List Condition) :
    evaluate o (.xor parts) = Truth.parity (parts.map (evaluate o)) :=
  evaluate_ofCompound o .xor parts

theorem evaluate_surrogate (o : Observation) (parts : List Condition) :
    evaluate o (.surrogate parts) = parts.findSome? (evaluate o) := by
  rw [show evaluate o (.surrogate parts) = _ from evaluate_ofCompound o .surrogate parts]
  exact List.findSome?_map

theorem join_of_perm {op : CompoundOperator} (hop : op ≠ .surrogate) {ts us : List Truth} (h : ts.Perm us) :
    join op ts = join op us := by
  cases op with
  | and => exact Truth.all_of_perm h
  | or => exact Truth.any_of_perm h
  | xor => exact Truth.parity_of_perm h
  | surrogate => exact absurd rfl hop

theorem keeps_join {op : CompoundOperator} (hop : op ≠ .surrogate) {ts us : List Truth}
    (h : List.Forall₂ Truth.Keeps ts us) : (join op ts).Keeps (join op us) := by
  cases op with
  | and =>
    rw [join, Truth.all_eq_foldr, Truth.all_eq_foldr]
    exact .foldr .and _ h
  | or =>
    rw [join, Truth.any_eq_foldr, Truth.any_eq_foldr]
    exact .foldr .or _ h
  | xor =>
    rw [join, Truth.parity_eq_foldr, Truth.parity_eq_foldr]
    exact .foldr .xor _ h
  | surrogate => exact absurd rfl hop

/-! ## 2. Three-valued logic -/

/-- The same condition with the parts of a single compound in it, of any kind but a surrogate, in another order. -/
inductive Reordered : Condition → Condition → Prop
  | here {op : CompoundOperator} {parts parts' : List Condition} (kind : op ≠ .surrogate)
      (perm : parts.Perm parts') : Reordered (ofCompound op parts) (ofCompound op parts')
  | inside {op : CompoundOperator} {p p' : Condition} (before after : List Condition) (part : Reordered p p') :
      Reordered (ofCompound op (before ++ p :: after)) (ofCompound op (before ++ p' :: after))

theorem Reordered.evaluate_eq {c c' : Condition} (h : Reordered c c') (o : Observation) :
    evaluate o c = evaluate o c' := by
  induction h with
  | here kind perm =>
    rw [evaluate_ofCompound, evaluate_ofCompound]
    exact join_of_perm kind (perm.map _)
  | inside before after _ ih =>
    rw [evaluate_ofCompound, evaluate_ofCompound]
    simp only [List.map_append, List.map_cons, ih]

theorem evaluate_eq_of_reordered {c c' : Condition} (h : Relation.ReflTransGen Reordered c c') (o : Observation) :
    evaluate o c = evaluate o c' := by
  induction h with
  | refl => rfl
  | tail _ step ih => exact ih.trans (step.evaluate_eq o)

theorem evaluate_notIn (o : Observation) (field : String) (type : DataType) (members : List String) :
    evaluate o (.inSet field type members true) = (evaluate o (.inSet field type members false)).not := by
  rw [evaluate, evaluate]
  cases o.value? field with
  | none => rfl
  | some v => simp [Truth.not]

theorem scalars_notEqual (v w : Scalar) :
    Comparison.scalars .notEqual v w = (Comparison.scalars .equal v w).not := by
  unfold Comparison.scalars
  cases v.toFloat? <;> cases w.toFloat? <;> cases v.toText? <;> cases w.toText? <;> rfl

theorem evaluate_notEqual (o : Observation) (field : String) (operand : Scalar) :
    evaluate o (.compare field .notEqual operand) = (evaluate o (.compare field .equal operand)).not := by
  rw [evaluate, evaluate]
  cases o.value? field with
  | none => rfl
  | some v => exact scalars_notEqual v operand

/-- The logic of conditions, where false is less than unknown and unknown less than true. A conjunction is the least of
its parts and a disjunction the greatest; without parts they are true and false. An exclusive disjunction is unknown as
soon as a part is, and otherwise tells whether the number of true parts is odd. A surrogate is its first known part. Not
to be in a set and not to be equal are the opposites of being so, unknown where that is. So the parts of all but
surrogates may stand in any order, at any depth. -/
theorem evaluate_three_valued (o : Observation) :
    (evaluate o (.and []) = some true ∧ evaluate o (.or []) = some false) ∧
    (∀ parts, parts ≠ [] →
      IsLeast {n | ∃ t ∈ parts.map (evaluate o), Truth.rank t = n} (Truth.rank (evaluate o (.and parts))) ∧
      IsGreatest {n | ∃ t ∈ parts.map (evaluate o), Truth.rank t = n} (Truth.rank (evaluate o (.or parts)))) ∧
    (∀ parts, evaluate o (.xor parts) =
      if none ∈ parts.map (evaluate o) then none
      else some (decide (Odd ((parts.map (evaluate o)).count (some true))))) ∧
    (∀ parts b, evaluate o (.surrogate parts) = some b ↔
      ∃ before p after, parts = before ++ p :: after ∧ evaluate o p = some b ∧
        ∀ q ∈ before, evaluate o q = none) ∧
    (∀ parts, evaluate o (.surrogate parts) = none ↔ ∀ p ∈ parts, evaluate o p = none) ∧
    (∀ field type members, evaluate o (.inSet field type members true) =
      (evaluate o (.inSet field type members false)).not) ∧
    (∀ field operand, evaluate o (.compare field .notEqual operand) =
      (evaluate o (.compare field .equal operand)).not) ∧
    ∀ c c', Relation.ReflTransGen Reordered c c' → evaluate o c = evaluate o c' := by
  refine ⟨⟨evaluate_and o [], evaluate_or o []⟩, fun parts hparts => ?_, fun parts => ?_, fun parts b => ?_,
    fun parts => ?_, evaluate_notIn o, evaluate_notEqual o, fun c c' h => evaluate_eq_of_reordered h o⟩
  · have hvalues : parts.map (evaluate o) ≠ [] := fun h => hparts (List.map_eq_nil_iff.mp h)
    rw [evaluate_and, evaluate_or]
    exact ⟨Truth.isLeast_all hvalues, Truth.isGreatest_any hvalues⟩
  · rw [evaluate_xor, Truth.parity_eq]
  · rw [evaluate_surrogate]
    exact List.findSome?_eq_some_iff
  · rw [evaluate_surrogate]
    exact List.findSome?_eq_none_iff

def agelessWorker : Observation :=
  Table.ofList [("age", none), ("work", some (.string "Private"))]

def overForty : Condition :=
  .compare "age" .greaterThan (.double 40.0)

def isPrivate : Condition :=
  .compare "work" .equal (.string "Private")

/-- The conjunction below the surrogate is turned round; that the age is missing leaves both orders unknown, and the
surrogate answers with its second part. -/
theorem evaluate_three_valued_ageless :
    [overForty, isPrivate] ≠ [] ∧
    IsLeast {n | ∃ t ∈ [overForty, isPrivate].map (evaluate agelessWorker), Truth.rank t = n}
      (Truth.rank (evaluate agelessWorker (.and [overForty, isPrivate]))) ∧
    Relation.ReflTransGen Reordered (.surrogate [.and [overForty, isPrivate], isPrivate])
      (.surrogate [.and [isPrivate, overForty], isPrivate]) ∧
    evaluate agelessWorker (.surrogate [.and [overForty, isPrivate], isPrivate]) =
      evaluate agelessWorker (.surrogate [.and [isPrivate, overForty], isPrivate]) ∧
    evaluate agelessWorker (.surrogate [.and [isPrivate, overForty], isPrivate]) = some true := by
  obtain ⟨-, hbounds, -, -, -, -, -, hreordered⟩ := evaluate_three_valued agelessWorker
  have hturned : Reordered (.and [overForty, isPrivate]) (.and [isPrivate, overForty]) :=
    @Reordered.here .and _ _ (by decide) (List.Perm.swap _ _ _)
  have hinside : Reordered (.surrogate [.and [overForty, isPrivate], isPrivate])
      (.surrogate [.and [isPrivate, overForty], isPrivate]) :=
    @Reordered.inside .surrogate _ _ [] [isPrivate] hturned
  refine ⟨List.cons_ne_nil _ _, (hbounds _ (List.cons_ne_nil _ _)).1, .single hinside,
    hreordered _ _ (.single hinside), ?_⟩
  decide +kernel

/-! ## 3. Values that are learnt -/

/-- A condition that asks for nothing but values: neither whether one is missing nor, as a surrogate does, whether the
part before it is unknown. -/
inductive AsksValues : Condition → Prop
  | always : AsksValues .always
  | never : AsksValues .never
  | compare (field : String) (comparison : Comparison) (operand : Scalar) :
      AsksValues (.compare field comparison operand)
  | inSet (field : String) (type : DataType) (members : List String) (negated : Bool) :
      AsksValues (.inSet field type members negated)
  | compound {op : CompoundOperator} {parts : List Condition} (kind : op ≠ .surrogate)
      (each : ∀ p ∈ parts, AsksValues p) : AsksValues (ofCompound op parts)

def Learnt (o o' : Observation) : Prop :=
  ∀ field v, o.value? field = some v → o'.value? field = some v

theorem Learnt.keeps {o o' : Observation} (h : Learnt o o') (field : String) (f : Scalar → Truth) :
    Truth.Keeps ((o.value? field).bind f) ((o'.value? field).bind f) := by
  cases hv : o.value? field with
  | none =>
    intro b hb
    cases hb
  | some v =>
    rw [h field v hv]
    exact .refl _

/-- A value that was missing may be added. -/
theorem learnt_insert {o : Observation} {field : String} (h : o.value? field = none) (v : Scalar) :
    Learnt o (o.insert field (some v)) := by
  intro other w hw
  unfold Observation.value? at hw h ⊢
  rw [Table.find?_insert]
  by_cases hother : other = field
  · rw [← hother, hw] at h
    cases h
  · rw [if_neg hother]
    exact hw

theorem keeps_evaluate {c : Condition} (hc : c.AsksValues) {o o' : Observation} (h : Learnt o o') :
    Truth.Keeps (evaluate o c) (evaluate o' c) := by
  induction hc with
  | always | never =>
    rw [evaluate, evaluate]
    exact .refl _
  | compare field comparison operand =>
    rw [evaluate, evaluate]
    exact h.keeps field _
  | inSet field type members negated =>
    rw [evaluate, evaluate, Option.map_eq_bind, Option.map_eq_bind]
    exact h.keeps field _
  | compound kind _ ih =>
    rw [evaluate_ofCompound, evaluate_ofCompound]
    refine keeps_join kind ?_
    rw [List.forall₂_map_left_iff, List.forall₂_map_right_iff, List.forall₂_same]
    exact ih

/-- An answer that is known stays the same when missing values are learnt, as long as the condition asks for nothing but
values. -/
theorem evaluate_learnt {c : Condition} (hc : c.AsksValues) {o o' : Observation} (h : Learnt o o') {b : Bool}
    (hb : evaluate o c = some b) : evaluate o' c = some b :=
  keeps_evaluate hc h b hb

def youngWorker : Observation :=
  agelessWorker.insert "age" (some (.double 30.0))

/-- The disjunction holds by its second part before the age is known, and still does when the first part fails. -/
theorem evaluate_learnt_age : (Condition.or [overForty, isPrivate]).AsksValues ∧
    Learnt agelessWorker youngWorker ∧ evaluate agelessWorker (.or [overForty, isPrivate]) = some true ∧
    evaluate youngWorker (.or [overForty, isPrivate]) = some true := by
  have hasks : (Condition.or [overForty, isPrivate]).AsksValues := by
    refine @AsksValues.compound .or _ (by decide) ?_
    simp only [List.forall_mem_cons]
    exact ⟨.compare _ _ _, .compare _ _ _, List.forall_mem_nil _⟩
  have hlearnt : Learnt agelessWorker youngWorker := learnt_insert rfl _
  have hknown : evaluate agelessWorker (.or [overForty, isPrivate]) = some true := by decide +kernel
  exact ⟨hasks, hlearnt, hknown, evaluate_learnt hasks hlearnt hknown⟩

/-- A surrogate may change its mind: it answers for the age as soon as that is known. -/
example : evaluate agelessWorker (.surrogate [overForty, isPrivate]) = some true ∧
    evaluate youngWorker (.surrogate [overForty, isPrivate]) = some false := by decide +kernel

end Condition

end Scoring
