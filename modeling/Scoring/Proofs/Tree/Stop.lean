import Scoring.Proofs.Tree.Descent

/-!
# Stop — where a walk ends

Every leaf of a compiled tree has a class, so a walk that ends always ends with a prediction. It fails at a node with
children when none of their conditions holds and the node may not answer itself.
-/

namespace Scoring.DecisionTree

open Spec (Node NoTrueChildStrategy)

/-! ## 1. Leaves -/

theorem label_of_branch {i : Intake} {number : Nat} {n : Node} {b : Branch}
    (h : branch i number n = .ok b) (hleaf : n.children = []) : b.label.isSome := by
  obtain ⟨id, score, count, predicate, children, entries⟩ := n
  have hchildren : children = [] := hleaf
  subst hchildren
  unfold branch at h
  rw [Outcome.bind_eq_ok] at h
  obtain ⟨ps, -, h⟩ := h
  simp only at h
  split at h
  · cases h
  · rename_i hlabel
    simp only [Outcome.bind_eq_ok] at h
    obtain ⟨condition, -, hb⟩ := h
    cases hb
    rw [List.isEmpty_nil, Bool.true_and, Option.isNone_iff_eq_none] at hlabel
    exact Option.isSome_iff_ne_none.mpr hlabel

theorem eq_nil_of_preorderAll {i : Intake} {start : Nat} {ns : List Node} {behind : List Branch}
    (h : preorderAll i start ns = .ok ([], behind)) : ns = [] := by
  cases ns with
  | nil => rfl
  | cons n rest =>
    unfold preorderAll at h
    simp only [Outcome.bind_eq_ok] at h
    obtain ⟨_, -, _, -, habsurd⟩ := h
    cases habsurd

mutual

/-- Nodes without children have a class. -/
theorem label_of_preorder {i : Intake} {start : Nat} (n : Node) {ns : List Branch}
    (h : preorder i start n = .ok ns) : ∀ b ∈ ns, b.children = [] → b.label.isSome := by
  obtain ⟨id, score, count, predicate, children, entries⟩ := n
  unfold preorder at h
  simp only [Outcome.bind_eq_ok] at h
  obtain ⟨b, hb, ⟨places, behind⟩, hall, heq⟩ := h
  cases heq
  intro c hc hleaf
  rcases List.mem_cons.mp hc with rfl | hc
  -- a node without places has no trees below it
  · have hplaces : places = [] := hleaf
    subst hplaces
    have hlabel := label_of_branch hb (eq_nil_of_preorderAll hall)
    exact hlabel
  · exact label_of_preorderAll children hall c hc hleaf

theorem label_of_preorderAll {i : Intake} {start : Nat} (ns : List Node)
    {places : List Nat} {behind : List Branch} (h : preorderAll i start ns = .ok (places, behind)) :
    ∀ b ∈ behind, b.children = [] → b.label.isSome := by
  match ns with
  | [] =>
    cases h
    intro b hb
    cases hb
  | n :: rest =>
    unfold preorderAll at h
    simp only [Outcome.bind_eq_ok] at h
    obtain ⟨first, hfirst, ⟨others, last⟩, hrest, heq⟩ := h
    cases heq
    intro b hb hleaf
    rcases List.mem_append.mp hb with hb | hb
    · exact label_of_preorder n hfirst b hb hleaf
    · exact label_of_preorderAll rest hrest b hb hleaf

end

def Labelled (t : DecisionTree) : Prop :=
  ∀ n ∈ t.nodes, n.children = [] → n.label.isSome

theorem labelled_of_ofRoot {root : Node} {i : Intake} {strategy : NoTrueChildStrategy}
    {t : DecisionTree} (h : ofRoot root i strategy = .ok t) : t.Labelled :=
  label_of_preorder root (exists_of_ofRoot h).1

/-! ## 2. Walks -/

/-- The places that the walk from the root comes to. -/
inductive Reaches (t : DecisionTree) (o : Observation) : Nat → Prop
  | root (holds : t.holds o 0 = true) : Reaches t o 0
  | child {place child : Nat} {n : Branch} (above : Reaches t o place) (node : t.nodes[place]? = some n)
      (first : n.children.find? (t.holds o) = some child) : Reaches t o child

/-- The walk comes to a node from which there is no way on, and which does not answer. -/
structure Stuck (t : DecisionTree) (o : Observation) (n : Branch) : Prop where
  reached : ∃ place, t.Reaches o place ∧ t.nodes[place]? = some n
  children : n.children ≠ []
  fails : ∀ c ∈ n.children, t.holds o c = false
  silent : ¬(t.strategy = .returnLastPrediction ∧ n.label.isSome)

/-- A walk ends at a node with a class, or where there is no way on. -/
theorem descend_spec {t : DecisionTree} (ht : t.Labelled) {o : Observation} {place : Nat}
    (hreach : t.Reaches o place) (h : place < t.nodes.length) :
    (∃ way, t.descend o place h = .ok way ∧ way.2.label.isSome) ∨
      ∃ n, t.descend o place h = .error (.mismatch (.noChild n.id)) ∧ t.Stuck o n := by
  -- children stand behind their parents
  induction hk : t.nodes.length - place using Nat.strong_induction_on generalizing place with
  | _ k ih =>
    have hget := List.getElem?_eq_getElem h
    by_cases hchildren : t.nodes[place].children = []
    · refine Or.inl ⟨_, descend_leaf h hget hchildren, ?_⟩
      exact ht _ (List.getElem_mem h) hchildren
    · cases hfind : t.nodes[place].children.find? (t.holds o) with
      | some child =>
        have hbelow := t.below place _ hget child (List.mem_of_find?_eq_some hfind)
        rw [descend_child h hget hfind hbelow.2]
        have hchild : t.Reaches o child := hreach.child hget hfind
        rcases ih _ (by omega) hchild hbelow.2 rfl with ⟨way, hway, hlabel⟩ | ⟨n, hn, hstuck⟩
        · exact Or.inl ⟨(t.nodes[place] :: way.1, way.2), by rw [hway]; rfl, hlabel⟩
        · exact Or.inr ⟨n, by rw [hn]; rfl, hstuck⟩
      | none =>
        -- no way on: the node answers itself, or the walk fails here
        rw [descend_stop h hget hchildren hfind]
        by_cases hanswer : t.strategy = .returnLastPrediction ∧ t.nodes[place].label.isSome
        · rw [if_pos hanswer]
          exact Or.inl ⟨_, rfl, hanswer.2⟩
        · rw [if_neg hanswer]
          refine Or.inr ⟨_, rfl, ⟨place, hreach, hget⟩, hchildren, fun c hc => ?_, hanswer⟩
          simpa using List.find?_eq_none.mp hfind c hc

/-- On an observation of its fields a tree fails at its root, or where there is no way on. -/
theorem exists_of_explain_eq_error {t : DecisionTree} (ht : t.Labelled) {o : Observation}
    (ho : o.check t.fields = .ok ()) {e : Fault} (h : t.explain o = .error e) :
    (e = .mismatch .rootFails ∧ t.holds o 0 = false) ∨
      ∃ n, e = .mismatch (.noChild n.id) ∧ t.Stuck o n := by
  rw [explain_eq] at h
  unfold walk at h
  rw [ho, Outcome.ok_bind] at h
  cases hroot : t.holds o 0 with
  | false =>
    rw [hroot, if_neg (by simp)] at h
    cases h
    exact Or.inl ⟨rfl, rfl⟩
  | true =>
    rw [hroot, if_pos rfl] at h
    rcases descend_spec ht (.root hroot) t.nonempty with ⟨way, hway, hlabel⟩ | ⟨n, hn, hstuck⟩
    · rw [hway, Outcome.ok_bind] at h
      unfold report prediction at h
      -- the node that decides has a class, so there is an answer
      obtain ⟨label, hsome⟩ := Option.isSome_iff_exists.mp hlabel
      rw [hsome] at h
      cases h
    · rw [hn] at h
      cases h
      exact Or.inr ⟨n, rfl, hstuck⟩

end Scoring.DecisionTree
