import Scoring.Proofs.Condition.Fields
import Scoring.Proofs.Field.Intake
import Scoring.Proofs.Tree.Descent

/-!
# Fields — what a tree has to be shown

The fields of a tree are those that any predicate of any of its nodes tests, however deep inside a compound
(`Node.mem_testedFields`); a walk over the nodes with a stack gathers the same names (`Node.names_gather`). An intake of
these fields knows every field that is asked for when the tree is compiled, and the compiled tree reads the values of
these fields alone (`DecisionTree.reads_tested_fields`).
-/

namespace Scoring

open Spec (Node NoTrueChildStrategy Predicate)

/-! ## 1. Tests of a tree -/

namespace Spec.Node

theorem within_node_iff {root n : Node} : n.Within root ↔ n = root ∨ ∃ child ∈ root.children, n.Within child := by
  constructor
  · rintro (_ | ⟨hmem, hwithin⟩)
    · exact .inl rfl
    · exact .inr ⟨_, hmem, hwithin⟩
  · rintro (rfl | ⟨child, hmem, hwithin⟩)
    · exact .root
    · exact .deeper hmem hwithin

mutual

theorem mem_fields {field : String} (root : Node) :
    field ∈ root.fields ↔ ∃ n : Node, n.Within root ∧ n.predicate.Tests field := by
  obtain ⟨id, score, count, predicate, children, entries⟩ := root
  rw [fields, List.mem_append, Predicate.mem_fields, mem_fieldsOfAll children]
  constructor
  · rintro (htests | ⟨child, hmem, n, hwithin, htests⟩)
    · exact ⟨_, .root, htests⟩
    · exact ⟨n, .deeper hmem hwithin, htests⟩
  · rintro ⟨n, hwithin, htests⟩
    rcases within_node_iff.mp hwithin with rfl | ⟨child, hmem, hwithin⟩
    · exact .inl htests
    · exact .inr ⟨child, hmem, n, hwithin, htests⟩

theorem mem_fieldsOfAll {field : String} (ns : List Node) :
    field ∈ fieldsOfAll ns ↔ ∃ m ∈ ns, ∃ n : Node, n.Within m ∧ n.predicate.Tests field := by
  cases ns with
  | nil => simp [fieldsOfAll]
  | cons m rest => rw [fieldsOfAll, List.mem_append, mem_fields m, mem_fieldsOfAll rest, List.exists_mem_cons_iff]

end

theorem mem_testedFields {root : Node} {field : String} :
    field ∈ root.testedFields ↔ ∃ n : Node, n.Within root ∧ n.predicate.Tests field := by
  rw [← mem_fields]
  exact Table.mem_ofNames

/-! ## 2. A stack of nodes -/

theorem countAll_reverse (ns : List Node) : countAll ns.reverse = countAll ns := by
  induction ns with
  | nil => rfl
  | cons n rest ih =>
    have hone : countAll [n] = n.count := Nat.add_zero _
    rw [List.reverse_cons, countAll_append, ih, hone, Nat.add_comm]
    rfl

/-- The names found so far and all that the nodes on a stack test. The children of a node go on top, so that the last of
them comes first. -/
def gather (found : Table Unit) : List Node → Table Unit
  | [] => found
  | n :: stack =>
    gather (n.predicate.fields.foldl (fun names field => names.insert field ()) found) (n.children.reverse ++ stack)
termination_by stack => countAll stack
decreasing_by
  show countAll (n.children.reverse ++ stack) < n.count + countAll stack
  rw [countAll_append, countAll_reverse, n.count_eq]
  omega

/-- No node is missed: the stack is emptied with the tests of every node below it found. -/
theorem mem_gather {found : Table Unit} {stack : List Node} {field : String} :
    field ∈ (gather found stack).names ↔ field ∈ found.names ∨ field ∈ fieldsOfAll stack := by
  fun_induction gather found stack with
  | case1 found => simp [fieldsOfAll]
  | case2 found n stack ih =>
    obtain ⟨id, score, count, predicate, children, entries⟩ := n
    rw [ih, Table.mem_names_foldl_insert_unit, mem_fieldsOfAll, mem_fieldsOfAll, List.exists_mem_cons_iff, ← mem_fields,
      fields, List.mem_append, mem_fieldsOfAll]
    simp only [List.mem_append, List.mem_reverse, or_and_right, exists_or]
    show (field ∈ predicate.fields ∨ _) ∨ (∃ m ∈ children, _) ∨ _ ↔ _
    rw [or_comm (a := field ∈ predicate.fields), or_assoc, or_assoc]

theorem names_gather (root : Node) : (gather .empty [root]).names = root.testedFields := by
  apply eq_of_ascending_of_mem_iff (Table.names_pairwise _) (Table.names_pairwise _)
  intro field
  rw [mem_gather, fieldsOfAll, fieldsOfAll, List.append_nil, Table.mem_ofNames]
  exact or_iff_right List.not_mem_nil

end Spec.Node

namespace DecisionTree

/-! ## 3. Conditions of a tree -/

section Flattening

variable {i : Intake} {nodes : List Branch} {stack : List (Node × Option Nat)}

theorem condition_of_adopt {parent : Option Nat} {child : Nat} {b : Branch} (h : b ∈ adopt nodes parent child) :
    ∃ b' ∈ nodes, b'.condition = b.condition := by
  obtain ⟨k, hk⟩ := List.mem_iff_getElem?.mp h
  cases parent with
  | none => exact ⟨b, h, rfl⟩
  | some p =>
    unfold adopt at hk
    rw [List.getElem?_modify, Option.map_eq_map, Option.map_eq_some_iff] at hk
    obtain ⟨b', hb', rfl⟩ := hk
    refine ⟨b', List.mem_of_getElem? hb', ?_⟩
    split <;> rfl

/-- Every placed node has the condition of one that was placed before, or that of a node below the stack. -/
theorem condition_of_flatten {nodes' : List Branch} (h : flatten i nodes stack = .ok nodes') {b : Branch}
    (hb : b ∈ nodes') : (∃ b' ∈ nodes, b'.condition = b.condition) ∨
      ∃ m : Node, (∃ s ∈ stack, m.Within s.1) ∧ Condition.ofPredicate i m.predicate = .ok b.condition := by
  induction nodes, stack using flatten.induct with
  | case1 nodes =>
    rw [flatten] at h
    cases h
    exact .inl ⟨b, hb, rfl⟩
  | case2 nodes n parent stack ih =>
    rw [flatten, Outcome.bind_eq_ok] at h
    obtain ⟨placed, hplaced, h⟩ := h
    rcases ih placed h with ⟨b', hb', hcondition⟩ | ⟨m, hwithin, hm⟩
    · obtain ⟨c, hc, hsame⟩ := condition_of_adopt hb'
      rcases List.mem_append.mp hc with hc | hc
      · exact .inl ⟨c, hc, hsame.trans hcondition⟩
      -- the node that has just been placed
      · cases List.mem_singleton.mp hc
        obtain ⟨-, -, -, hn⟩ := eq_of_branch hplaced
        exact .inr ⟨n, ⟨_, List.mem_cons_self, .root⟩, by rw [hn, hsame, hcondition]⟩
    · exact .inr ⟨m, within_of_push hwithin, hm⟩

end Flattening

variable {i : Intake} {root : Node} {strategy : NoTrueChildStrategy} {t : DecisionTree}

theorem tests_of_branch {place : Nat} {n : Node} {field : String}
    (h : branch i place n = .error (.malformed (.untestableField field))) :
    n.predicate.Tests field ∧ i.find? field = none := by
  obtain ⟨id, score, count, predicate, children, entries⟩ := n
  unfold branch at h
  rw [Outcome.bind_eq_error] at h
  rcases h with h | ⟨ps, -, h⟩
  · unfold probabilities at h
    split at h
    · cases h
    · split at h
      · cases h
      · simp only at h
        split at h <;> cases h
  · simp only at h
    split at h
    · cases h
    · rw [Outcome.bind_eq_error] at h
      rcases h with h | ⟨c, -, h⟩
      · exact Condition.tests_of_ofPredicate predicate h
      · cases h

/-- A tree is not compiled for want of a field only where it tests one that the intake does not know. -/
theorem tests_of_ofRoot {field : String}
    (h : ofRoot root i strategy = .error (.malformed (.untestableField field))) :
    field ∈ root.testedFields ∧ i.find? field = none := by
  obtain ⟨m, hwithin, place, hbranch⟩ := exists_of_ofRoot_eq_error h
  obtain ⟨htests, hfind⟩ := tests_of_branch hbranch
  exact ⟨Node.mem_testedFields.mpr ⟨m, hwithin, htests⟩, hfind⟩

theorem readsOnly_of_ofRoot (h : ofRoot root i strategy = .ok t) :
    ∀ b ∈ t.nodes, b.condition.ReadsOnly root.testedFields := by
  intro b hb
  obtain ⟨hnodes, -, -⟩ := exists_of_ofRoot h
  rw [← flatten_eq_preorder] at hnodes
  rcases condition_of_flatten hnodes hb with ⟨b', hb', -⟩ | ⟨m, ⟨s, hs, hwithin⟩, hm⟩
  · cases hb'
  · cases List.mem_singleton.mp hs
    exact Condition.readsOnly_of_ofPredicate m.predicate hm fun field htests =>
      Node.mem_testedFields.mpr ⟨m, hwithin, htests⟩

/-! ## 4. Walks -/

def answer (t : DecisionTree) (o : Observation) : Outcome Explanation :=
  if t.holds o 0 then t.descend o 0 t.nonempty >>= report else .error (.mismatch .rootFails)

/-- A tree checks which fields it is shown, and then answers. -/
theorem explain_eq_answer (t : DecisionTree) (o : Observation) :
    t.explain o = (o.check t.fields >>= fun _ => t.answer o) := by
  rw [explain_eq]
  unfold walk answer
  cases o.check t.fields with
  | error e => rfl
  | ok _ =>
    rw [Outcome.ok_bind, Outcome.ok_bind]
    split <;> rfl

section Reading

variable {fields : List String} (ht : ∀ b ∈ t.nodes, b.condition.ReadsOnly fields) {o o' : Observation}
  (h : ∀ field ∈ fields, o'.value? field = o.value? field)

include ht h

theorem holds_congr : t.holds o' = t.holds o := by
  funext place
  unfold holds
  cases hget : t.nodes[place]? with
  | none => rfl
  | some n =>
    show (n.condition.evaluate o' == some true) = (n.condition.evaluate o == some true)
    rw [(ht n (List.mem_of_getElem? hget)).evaluate_congr h]

theorem descend_congr {place : Nat} (hplace : place < t.nodes.length) :
    t.descend o' place hplace = t.descend o place hplace := by
  -- children stand behind their parents
  induction hk : t.nodes.length - place using Nat.strong_induction_on generalizing place with
  | _ k ih =>
    have hget := List.getElem?_eq_getElem hplace
    have hholds := holds_congr ht h
    by_cases hchildren : t.nodes[place].children = []
    · rw [descend_leaf hplace hget hchildren, descend_leaf hplace hget hchildren]
    · cases hfind : t.nodes[place].children.find? (t.holds o) with
      | some child =>
        have hbelow := t.below place _ hget child (List.mem_of_find?_eq_some hfind)
        rw [descend_child hplace hget hfind hbelow.2, descend_child hplace hget (hholds ▸ hfind) hbelow.2,
          ih _ (by omega) hbelow.2 rfl]
      | none =>
        rw [descend_stop hplace hget hchildren hfind, descend_stop hplace hget hchildren (hholds ▸ hfind)]

theorem answer_congr : t.answer o' = t.answer o := by
  unfold answer
  rw [holds_congr ht h, descend_congr ht h]

end Reading

/-- The tested fields of a tree are exactly those that a predicate of one of its nodes tests, at any depth of its
compounds, each once and ascending; emptying a stack of nodes gathers the same. Where all of them resolve, the tree is
never refused because a predicate tests a field that is not known. What is compiled asks to be shown these fields, none
of its conditions names another one, and its answer is the same for any two observations that agree on them. -/
theorem reads_tested_fields (root : Node) :
    (∀ field, field ∈ root.testedFields ↔ ∃ n : Node, n.Within root ∧ n.predicate.Tests field) ∧
    root.testedFields.Pairwise (· < ·) ∧ (Node.gather .empty [root]).names = root.testedFields ∧
    ∀ s i strategy, Intake.ofNames s root.testedFields = .ok i →
      (∀ field, ofRoot root i strategy ≠ .error (.malformed (.untestableField field))) ∧
      ∀ t, ofRoot root i strategy = .ok t →
        t.fields = root.testedFields ∧ (∀ b ∈ t.nodes, b.condition.ReadsOnly root.testedFields) ∧
        (∀ o, t.explain o = (o.check t.fields >>= fun _ => t.answer o) ∧
          t.classify o = (t.explain o).map (·.label)) ∧
        ∀ o o' : Observation, (∀ field ∈ root.testedFields, o'.value? field = o.value? field) →
          t.answer o' = t.answer o := by
  refine ⟨fun field => Node.mem_testedFields, Table.names_pairwise _, Node.names_gather root,
    fun s i strategy hi => ⟨fun field herror => ?_, fun t ht => ?_⟩⟩
  · obtain ⟨htested, hfind⟩ := tests_of_ofRoot herror
    exact Table.find?_eq_none_iff.mp hfind ((Intake.mem_names_of_ofNames hi).mpr htested)
  · have hreads := readsOnly_of_ofRoot ht
    refine ⟨?_, hreads, fun o => ⟨explain_eq_answer t o, classify_eq t o⟩, fun o o' h => answer_congr hreads h⟩
    rw [(exists_of_ofRoot ht).2.1]
    exact eq_of_ascending_of_mem_iff i.names_pairwise (Table.names_pairwise _) fun n => Intake.mem_names_of_ofNames hi

/-- The tree on an age reads the age in every observation, also of somebody whose work is known. -/
theorem reads_tested_fields_age :
    ∃ i t, Intake.ofNames Intake.workScope ageTree.testedFields = .ok i ∧
      ofRoot ageTree i .returnNullPrediction = .ok t ∧ t.fields = ["age"] ∧
      t.answer (ageObservation.insert "work" (some (.string "Private"))) = t.answer ageObservation ∧
      ∃ e, t.answer ageObservation = .ok e ∧ e.label = "yes" := by
  obtain ⟨-, -, -, hcompiled⟩ := reads_tested_fields ageTree
  have htested : ageTree.testedFields = ["age"] := by decide +kernel
  have hintake : Intake.ofNames Intake.workScope ageTree.testedFields = .ok ageIntake := by
    rw [htested]
    exact Intake.ofNames_singleton Intake.resolve_age
  have hok : (ofRoot ageTree ageIntake .returnNullPrediction).toOption.map
      (fun t => (t.answer ageObservation).toOption.map (·.label)) = some (some "yes") := by decide +kernel
  obtain ⟨t, ht, hlabel⟩ := Outcome.exists_of_toOption_map hok
  obtain ⟨-, htree⟩ := hcompiled _ _ _ hintake
  obtain ⟨hfields, -, -, hanswer⟩ := htree t ht
  refine ⟨_, t, hintake, ht, hfields.trans htested, hanswer _ _ ?_, Outcome.exists_of_toOption_map hlabel⟩
  rw [htested, List.forall_mem_singleton]
  rfl

end DecisionTree

end Scoring
