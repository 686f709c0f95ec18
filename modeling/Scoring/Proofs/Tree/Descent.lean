import Scoring.Proofs.Field.Observation
import Scoring.Proofs.Tree.Preorder

/-!
# Descent — walking down a row is recursion on the tree

`Node.explain` answers an observation by recursion on the tree of a description: it knows neither places nor rows,
only nodes and the numbers that preorder gives them. A tree that is flattened first gives the same answers
(`explain_of_ofRoot`): the same class, the same way to it, and the same failures.
-/

namespace Scoring

open Spec (Node NoTrueChildStrategy ScoreEntry)

/-! ## 1. Answers of a tree -/

def Explanation.behind (id : String) (e : Explanation) : Explanation :=
  { e with path := id :: e.path }

namespace Spec.Node

/-- The probabilities of a node's classes: as declared if every entry declares one, else the shares of the record
counts. -/
def shares (n : Node) : List (String × Float) :=
  if n.distribution.all (·.probability.isSome) then
    n.distribution.map fun e => (e.value, e.probability.getD 0.0)
  else
    n.distribution.map fun e =>
      (e.value, e.recordCount / Arithmetic.sum (n.distribution.map (·.recordCount)))

/-- The class that a scan ends with when it starts with `best` and gives it up for every entry that it is not at
least as probable as. -/
def leading (best : String × Float) : List (String × Float) → String
  | [] => best.1
  | e :: rest => leading (if best.2 ≥ e.2 then best else e) rest

/-- The class of a node: its score, else the leading one of its classes. -/
def label? (n : Node) : Option String :=
  n.score?.or (match n.shares with
    | [] => none
    | e :: rest => some (leading e rest))

def title (n : Node) (number : Nat) : String :=
  n.id?.getD (toString number)

def admits (i : Intake) (o : Observation) (n : Node) : Bool :=
  match Condition.ofPredicate i n.predicate with
  | .ok c => c.evaluate o == some true
  | .error _ => false

def conclude (n : Node) (number : Nat) : Outcome Explanation :=
  match n.label? with
  | some label => .ok ⟨label, Table.ofList n.shares, .empty, .empty, [n.title number]⟩
  | none => .error (.mismatch (.noPrediction (n.title number)))

mutual

/-- The answer of a tree whose root has been reached and has the given number: that of the first child whose
predicate holds, or, where there is none, that of the root itself. -/
def explainFrom (i : Intake) (o : Observation) (strategy : NoTrueChildStrategy) (number : Nat) :
    Node → Outcome Explanation
  | .node id score count predicate children entries =>
    let n : Node := .node id score count predicate children entries
    if children.isEmpty then n.conclude number
    else
      match explainAmong i o strategy (number + 1) children with
      | some answer => answer.map (Explanation.behind (n.title number))
      | none =>
        if strategy = .returnLastPrediction ∧ n.label?.isSome then n.conclude number
        else .error (.mismatch (.noChild (n.title number)))

/-- The answer of the first of several trees whose root's predicate holds, if there is one. -/
def explainAmong (i : Intake) (o : Observation) (strategy : NoTrueChildStrategy) (number : Nat) :
    List Node → Option (Outcome Explanation)
  | [] => none
  | n :: rest =>
    if n.admits i o then some (explainFrom i o strategy number n)
    else explainAmong i o strategy (number + n.count) rest

end

def explain (root : Node) (i : Intake) (o : Observation) (strategy : NoTrueChildStrategy) :
    Outcome Explanation :=
  if root.admits i o then explainFrom i o strategy 0 root else .error (.mismatch .rootFails)

end Spec.Node

/-! ## 2. Nodes and branches -/

namespace DecisionTree

/-- Probabilities that are all declared are read as they are. -/
theorem mapM_probability (entries : List ScoreEntry) :
    (entries.mapM fun e => e.probability.map (e.value, ·)) =
      if entries.all (·.probability.isSome) then
        some (entries.map fun e => (e.value, e.probability.getD 0.0))
      else none := by
  induction entries with
  | nil => rfl
  | cons e rest ih =>
    rw [List.mapM_cons, ih]
    cases hp : e.probability with
    | none => simp [hp]
    | some p =>
      by_cases hall : rest.all (·.probability.isSome) = true
      · simp [hp, hall]
      · simp [hp, hall]

theorem eq_shares_of_probabilities {n : Node} {ps : List (String × Float)}
    (h : probabilities n.id? n.distribution = .ok ps) : ps = n.shares := by
  unfold probabilities at h
  unfold Node.shares
  cases hd : n.distribution with
  | nil =>
    rw [hd] at h
    cases h
    rfl
  | cons e rest =>
    rw [hd, mapM_probability] at h
    by_cases hall : (e :: rest).all (·.probability.isSome) = true
    · rw [if_pos hall] at h ⊢
      cases h
      rfl
    · rw [if_neg hall] at h ⊢
      simp only [List.isEmpty_cons, Bool.false_eq_true, if_false] at h
      split at h
      · cases h
      · cases h
        rfl

theorem mostProbable?_eq (entries : List (String × Float)) :
    mostProbable? entries = match entries with
      | [] => none
      | e :: rest => some (Node.leading e rest) := by
  cases entries with
  | nil => rfl
  | cons e rest =>
    show Option.map _ (rest.foldl _ (some e)) = some (Node.leading e rest)
    -- the scan hands on the best entry so far, so the statement is about any of them
    induction rest generalizing e with
    | nil => rfl
    | cons e' rest ih =>
      rw [List.foldl_cons, Node.leading, ← ih]
      by_cases hge : e.2 ≥ e'.2
      · simp only [hge, if_true]
      · simp only [hge, if_false]

/-- What a branch takes from its node. -/
theorem eq_of_branch {i : Intake} {number : Nat} {n : Node} {b : Branch}
    (h : branch i number n = .ok b) :
    b.id = n.title number ∧ b.label = n.label? ∧ b.distribution = n.shares ∧
      Condition.ofPredicate i n.predicate = .ok b.condition := by
  obtain ⟨id, score, count, predicate, children, entries⟩ := n
  unfold branch at h
  rw [Outcome.bind_eq_ok] at h
  obtain ⟨ps, hps, h⟩ := h
  have hshares : ps = Node.shares (.node id score count predicate children entries) :=
    eq_shares_of_probabilities hps
  simp only at h
  split at h
  · cases h
  · simp only [Outcome.bind_eq_ok] at h
    obtain ⟨condition, hcondition, hb⟩ := h
    cases hb
    refine ⟨rfl, ?_, hshares, hcondition⟩
    rw [mostProbable?_eq, hshares]
    rfl

def report (way : List Branch × Branch) : Outcome Explanation := do
  let label ← prediction way.2
  .ok {
    label
    probabilities := Table.ofList way.2.distribution
    scores := .empty
    terms := .empty
    path := (way.1 ++ [way.2]).map (·.id) }

theorem report_last {i : Intake} {number : Nat} {n : Node} {b : Branch} (h : branch i number n = .ok b)
    (places : List Nat) : report ([], { b with children := places }) = n.conclude number := by
  obtain ⟨hid, hlabel, hshares, -⟩ := eq_of_branch h
  unfold report prediction Node.conclude
  simp only [hid, hlabel, hshares]
  cases n.label? with
  | none => rfl
  | some label => rfl

/-- A node on the way stands before the rest of it. -/
theorem report_behind (b : Branch) (passed : List Branch) (last : Branch) :
    report (b :: passed, last) = (report (passed, last)).map (Explanation.behind b.id) := by
  unfold report
  cases prediction last with
  | error e => rfl
  | ok label => rfl

theorem explain_eq (t : DecisionTree) (o : Observation) : t.explain o = t.walk o >>= report := rfl

theorem classify_eq (t : DecisionTree) (o : Observation) :
    t.classify o = (t.explain o).map (·.label) := by
  unfold classify explain
  cases t.walk o with
  | error e => rfl
  | ok way =>
    obtain ⟨passed, last⟩ := way
    show prediction last = _
    rw [Outcome.ok_bind]
    cases h : prediction last with
    | error e => simp [h, Except.map]
    | ok label => simp [h, Except.map]

/-! ## 3. Steps of a walk -/

variable {t : DecisionTree} {o : Observation} {place : Nat} (h : place < t.nodes.length)

include h

theorem descend_leaf {n : Branch} (hn : t.nodes[place]? = some n) (hc : n.children = []) :
    t.descend o place h = .ok ([], n) := by
  obtain ⟨_, hget⟩ := List.getElem?_eq_some_iff.mp hn
  subst hget
  rw [descend]
  simp [hc]

theorem descend_child {n : Branch} (hn : t.nodes[place]? = some n) {child : Nat}
    (hfind : n.children.find? (t.holds o) = some child) (hc : child < t.nodes.length) :
    t.descend o place h = (do
      let (passed, last) ← t.descend o child hc
      .ok (n :: passed, last) : Outcome (List Branch × Branch)) := by
  obtain ⟨_, hget⟩ := List.getElem?_eq_some_iff.mp hn
  subst hget
  rw [descend]
  have hne : ¬ t.nodes[place].children.isEmpty = true := by
    rw [List.isEmpty_iff]
    intro hempty
    rw [hempty] at hfind
    cases hfind
  simp only [hne, Bool.false_eq_true, if_false]
  -- the walk looks its child up once more, and finds the same one
  split
  · rename_i child' hchild'
    rw [hfind, Option.some.injEq] at hchild'
    subst hchild'
    rfl
  · rename_i hnone
    rw [hfind] at hnone
    cases hnone

theorem descend_stop {n : Branch} (hn : t.nodes[place]? = some n) (hne : n.children ≠ [])
    (hfind : n.children.find? (t.holds o) = none) :
    t.descend o place h =
      if t.strategy = .returnLastPrediction ∧ n.label.isSome then .ok ([], n)
      else .error (.mismatch (.noChild n.id)) := by
  obtain ⟨_, hget⟩ := List.getElem?_eq_some_iff.mp hn
  subst hget
  rw [descend]
  simp only [List.isEmpty_iff, hne, if_false]
  split
  · rename_i child hchild
    rw [hfind] at hchild
    cases hchild
  · simp

end DecisionTree

/-! ## 4. Walks and trees -/

namespace DecisionTree

variable {i : Intake} {t : DecisionTree} {o : Observation}

theorem lt_of_planted {nodes : List Branch} {start : Nat} {n : Node} (h : Planted i nodes start n) :
    start < nodes.length := by
  obtain ⟨id, score, count, predicate, children, entries⟩ := n
  obtain ⟨b, places, -, hget, -⟩ := h
  exact (List.getElem?_eq_some_iff.mp hget).1

/-- The condition at a node's place is its predicate. -/
theorem holds_of_planted {start : Nat} {n : Node} (h : Planted i t.nodes start n) :
    t.holds o start = n.admits i o := by
  obtain ⟨id, score, count, predicate, children, entries⟩ := n
  obtain ⟨b, places, hb, hget, -⟩ := h
  obtain ⟨-, -, -, hcondition⟩ := eq_of_branch hb
  unfold holds Node.admits
  rw [hget, hcondition]

theorem places_eq_nil_iff {nodes : List Branch} {start : Nat} {places : List Nat} {ns : List Node}
    (h : PlantedAll i nodes start places ns) : places = [] ↔ ns = [] := by
  cases ns with
  | nil =>
    have hplaces : places = [] := h
    simp [hplaces]
  | cons n rest =>
    obtain ⟨others, hplaces, -, -⟩ := h
    simp [hplaces]

mutual

/-- From the place of a planted tree on, the walk is the recursion on the tree. -/
theorem descend_eq_explainFrom (n : Node) {start : Nat} (h : Planted i t.nodes start n) :
    t.descend o start (lt_of_planted h) >>= report = n.explainFrom i o t.strategy start := by
  obtain ⟨id, score, count, predicate, children, entries⟩ := n
  obtain ⟨b, places, hb, hget, hall⟩ := h
  obtain ⟨hid, hlabel, -, -⟩ := eq_of_branch hb
  have hempty := places_eq_nil_iff hall
  have hamong := find?_eq_explainAmong children hall
  have hlt := (List.getElem?_eq_some_iff.mp hget).1
  rw [Node.explainFrom]
  -- a node is a leaf of the tree exactly when it has no places in the row
  by_cases hchildren : children = []
  · rw [if_pos (List.isEmpty_iff.mpr hchildren), descend_leaf hlt hget (hempty.mpr hchildren),
      Outcome.ok_bind, report_last hb]
  · rw [if_neg (by rwa [List.isEmpty_iff])]
    cases hfind : places.find? (t.holds o) with
    | some child =>
      rw [hfind] at hamong
      obtain ⟨hchild, hanswer⟩ := hamong
      rw [hanswer, descend_child hlt hget hfind hchild]
      cases t.descend o child hchild with
      | error e => rfl
      | ok way =>
        obtain ⟨passed, last⟩ := way
        rw [Outcome.ok_bind, Outcome.ok_bind, Outcome.ok_bind, report_behind, hid]
    | none =>
      rw [hfind] at hamong
      have hne : places ≠ [] := fun hnil => hchildren (hempty.mp hnil)
      rw [show Node.explainAmong i o t.strategy (start + 1) children = none from hamong,
        descend_stop hlt hget hne hfind]
      by_cases hstop : t.strategy = .returnLastPrediction ∧ b.label.isSome
      · rw [if_pos hstop, if_pos (hlabel ▸ hstop), Outcome.ok_bind, report_last hb]
      · rw [if_neg hstop, if_neg (hlabel ▸ hstop), ← hid]
        rfl

/-- The first place whose condition holds is that of the first tree whose root's predicate holds. -/
theorem find?_eq_explainAmong (ns : List Node) {start : Nat} {places : List Nat}
    (h : PlantedAll i t.nodes start places ns) :
    match places.find? (t.holds o) with
    | some child => ∃ hchild : child < t.nodes.length,
        Node.explainAmong i o t.strategy start ns = some (t.descend o child hchild >>= report)
    | none => Node.explainAmong i o t.strategy start ns = none := by
  match ns with
  | [] =>
    have hplaces : places = [] := h
    rw [hplaces]
    rfl
  | n :: rest =>
    obtain ⟨others, rfl, hn, hrest⟩ := h
    have hholds : t.holds o start = n.admits i o := holds_of_planted hn
    -- places and trees are gone through in step
    rw [List.find?_cons, hholds, Node.explainAmong]
    cases hadmits : n.admits i o with
    | true =>
      refine ⟨lt_of_planted hn, ?_⟩
      rw [if_pos rfl, descend_eq_explainFrom n hn]
    | false =>
      rw [if_neg (by simp)]
      exact find?_eq_explainAmong rest hrest

end

/-- A compiled tree answers every observation of the fields of its intake as its description does: the same class, the
same way, and the same failures. -/
theorem explain_of_ofRoot {root : Node} {strategy : NoTrueChildStrategy}
    (h : ofRoot root i strategy = .ok t) (ho : ∀ n, o.contains n = i.contains n) :
    t.explain o = root.explain i o strategy ∧
      t.classify o = (root.explain i o strategy).map (·.label) := by
  have hexplain : t.explain o = root.explain i o strategy := by
    have hplanted := planted_of_ofRoot h
    obtain ⟨-, hfields, hstrategy⟩ := exists_of_ofRoot h
    -- the observation shows the fields of the tree, so the check lets it pass
    have hcheck : o.check t.fields = .ok () := by
      rw [hfields]
      exact Observation.check_eq_ok (Table.names_eq_of_contains_iff ho)
    have hroot : t.holds o 0 = root.admits i o := holds_of_planted hplanted
    rw [explain_eq]
    unfold walk Node.explain
    rw [hcheck, Outcome.ok_bind, hroot]
    cases root.admits i o with
    | true =>
      have hdescend := descend_eq_explainFrom (o := o) root hplanted
      rw [hstrategy] at hdescend
      exact hdescend
    | false => rfl
  refine ⟨hexplain, ?_⟩
  rw [classify_eq, hexplain]

/-! A tree on an age, with a node that has neither identifier nor class, and two classes that are equally frequent. -/

def ageTree : Node :=
  .node (some "root") (some "no") none .always [
    .node none (some "no") none (.simple "age" .lessThan (some "18")) [] [],
    .node none none none (.simple "age" .greaterOrEqual (some "18")) [
      .node (some "old") none none (.simple "age" .greaterThan (some "65")) []
        [⟨"no", 1.0, none⟩, ⟨"yes", 3.0, none⟩, ⟨"maybe", 3.0, none⟩]] []] []

def ageIntake : Intake :=
  Table.ofList [("age", ⟨"age", .continuous "age" .double, .continuous, .double, []⟩)]

def ageObservation : Observation := Table.ofList [("age", some (.double 70.0))]

theorem explain_of_ofRoot_age : ∃ t e, ofRoot ageTree ageIntake .returnNullPrediction = .ok t ∧
    t.explain ageObservation = .ok e ∧ t.classify ageObservation = .ok e.label ∧
    e.label = "yes" ∧ e.path = ["root", "2", "old"] := by
  have hok : (ofRoot ageTree ageIntake .returnNullPrediction).toOption.map (fun _ => ()) = some () := by
    decide +kernel
  have hanswer : (ageTree.explain ageIntake ageObservation .returnNullPrediction).toOption.map
      (fun e => (e.label, e.path)) = some ("yes", ["root", "2", "old"]) := by decide +kernel
  have hfields : ageObservation.names = ageIntake.names := by decide +kernel
  have hcontains : ∀ n, ageObservation.contains n = ageIntake.contains n := by
    intro n
    rw [Bool.eq_iff_iff, Table.contains_iff_mem_names, Table.contains_iff_mem_names, hfields]
  obtain ⟨t, ht, -⟩ := Outcome.exists_of_toOption_map hok
  obtain ⟨e, he, hpair⟩ := Outcome.exists_of_toOption_map hanswer
  obtain ⟨hexplain, hclassify⟩ := explain_of_ofRoot ht hcontains
  rw [he] at hexplain hclassify
  obtain ⟨hlabel, hpath⟩ := Prod.mk.inj hpair
  exact ⟨t, e, ht, hexplain, hclassify, hlabel, hpath⟩

end DecisionTree

end Scoring
