import Scoring.Arithmetic
import Scoring.Condition
import Scoring.Explanation

/-!
# DecisionTree — classification trees laid out in a row

A tree model is flattened when it is compiled: its nodes stand in one list in preorder, and each node knows the
places of its children. A stack holds the nodes that are still to be placed, each with the place of its parent.
Children stand behind their parent (`Below`), so walking down the tree ends.
-/

namespace Scoring

open Spec (NoTrueChildStrategy Node ScoreEntry)

structure Branch where
  /-- The identifier from the document, or the node's place in preorder. -/
  id : String
  condition : Condition
  /-- The class that the node predicts, if it predicts one. -/
  label : Option String
  /-- The probabilities of the classes, in declaration order. -/
  distribution : List (String × Float)
  /-- The places of the children, in declaration order. -/
  children : List Nat
  deriving Inhabited

/-- The children of each node stand behind it and within the list. -/
def Below (nodes : List Branch) : Prop :=
  ∀ (k : Nat) (n : Branch), nodes[k]? = some n → ∀ c ∈ n.children, k < c ∧ c < nodes.length

structure DecisionTree where
  nodes : List Branch
  nonempty : 0 < nodes.length
  below : Below nodes
  fields : List String
  strategy : NoTrueChildStrategy

/-! ## Sizes of trees -/

namespace Spec.Node

mutual

def count : Node → Nat
  | .node _ _ _ _ children _ => countAll children + 1

def countAll : List Node → Nat
  | [] => 0
  | n :: rest => n.count + countAll rest

end

theorem count_eq (n : Node) : n.count = countAll n.children + 1 := by
  cases n
  rfl

theorem countAll_append (ns ms : List Node) : countAll (ns ++ ms) = countAll ns + countAll ms := by
  induction ns with
  | nil => exact (Nat.zero_add _).symm
  | cons n rest ih =>
    show n.count + countAll (rest ++ ms) = n.count + countAll rest + countAll ms
    rw [ih, Nat.add_assoc]

end Spec.Node

namespace DecisionTree

/-! ## Flattening -/

/-- The probabilities of a node's classes: as declared if all of them are, else the shares of the record
counts. -/
def probabilities (id : Option String) (entries : List ScoreEntry) : Outcome (List (String × Float)) :=
  if entries.isEmpty then .ok []
  else match entries.mapM fun e => e.probability.map (e.value, ·) with
    | some ps => .ok ps
    | none =>
      let total := Arithmetic.sum (entries.map (·.recordCount))
      if total ≤ 0.0 then .error (.malformed (.emptyDistribution id))
      else .ok (entries.map fun e => (e.value, e.recordCount / total))

/-- The class of the most probable entry: an entry gives way to a later one unless it is at least as
probable. -/
def mostProbable? (entries : List (String × Float)) : Option String :=
  (entries.foldl
    (fun best e =>
      match best with
      | some b => if b.2 ≥ e.2 then some b else some e
      | none => some e)
    none).map (·.1)

/-- The branch of a node at a place, with its children still to come. -/
def branch (i : Intake) (place : Nat) : Node → Outcome Branch
  | .node id score _ predicate children entries => do
    let distribution ← probabilities id entries
    let label := score.or (mostProbable? distribution)
    let name := id.getD (toString place)
    -- a node that decides has to predict something; only a leaf is sure to decide
    if children.isEmpty && label.isNone then .error (.malformed (.leafWithoutClass name))
    let condition ← Condition.ofPredicate i predicate
    .ok ⟨name, condition, label, distribution, []⟩

/-- Note the place of a child behind those that its parent has already. -/
def adopt (nodes : List Branch) (parent : Option Nat) (child : Nat) : List Branch :=
  match parent with
  | some p => nodes.modify p fun n => { n with children := n.children ++ [child] }
  | none => nodes

/-- Put the nodes on a stack behind those that are placed already. What is below a node comes before what the stack
held under it, so the places are those of preorder. -/
def flatten (i : Intake) (nodes : List Branch) : List (Node × Option Nat) → Outcome (List Branch)
  | [] => .ok nodes
  | (n, parent) :: stack => do
    let b ← branch i nodes.length n
    let children := n.children.map (·, some nodes.length)
    -- the children go on top of all that waits, the first of them uppermost
    flatten i (adopt (nodes ++ [b]) parent nodes.length) (children ++ stack)
termination_by stack => Node.countAll (stack.map (·.1))
decreasing_by
  rw [List.map_append, List.map_map, Node.countAll_append, List.map_cons]
  show Node.countAll (n.children.map id) + _ < n.count + _
  rw [List.map_id, n.count_eq]
  omega

@[simp] theorem length_adopt (nodes : List Branch) (parent : Option Nat) (child : Nat) :
    (adopt nodes parent child).length = nodes.length := by
  cases parent with
  | none => rfl
  | some p => exact List.length_modify ..

theorem children_of_branch {i : Intake} {place : Nat} {n : Node} {b : Branch}
    (h : branch i place n = .ok b) : b.children = [] := by
  obtain ⟨id, score, count, predicate, children, entries⟩ := n
  unfold branch at h
  cases hp : probabilities id entries with
  | error e => simp [hp, bind, Except.bind] at h
  | ok distribution =>
    simp only [hp, bind, Except.bind] at h
    split at h
    · cases h
    · cases hc : Condition.ofPredicate i predicate with
      | error e => simp [hc] at h
      | ok condition =>
        simp only [hc, Except.ok.injEq] at h
        rw [← h]

/-- Placing one more node keeps children behind their parents. -/
theorem below_place {nodes : List Branch} (h : Below nodes) {b : Branch} (hb : b.children = [])
    {parent : Option Nat} (hp : ∀ p ∈ parent, p < nodes.length) :
    Below (adopt (nodes ++ [b]) parent nodes.length) := by
  have happend : Below (nodes ++ [b]) := by
    intro k n hk c hc
    rw [List.getElem?_append] at hk
    rw [List.length_append, List.length_singleton]
    -- a node that was there before, or the new one
    split at hk
    · have := h k n hk c hc
      omega
    · rw [List.getElem?_singleton] at hk
      split at hk
      · cases hk
        rw [hb] at hc
        cases hc
      · cases hk
  cases parent with
  | none => exact happend
  | some p =>
    intro k n hk c hc
    rw [length_adopt]
    unfold adopt at hk
    rw [List.getElem?_modify, Option.map_eq_map, Option.map_eq_some_iff] at hk
    obtain ⟨m, hm, hn⟩ := hk
    split at hn
    -- the parent, which has the new node as its last child
    · rename_i hpk
      subst hpk hn
      rcases List.mem_append.mp hc with hc | hc
      · exact happend _ m hm c hc
      · rw [List.mem_singleton] at hc
        have := hp p rfl
        rw [List.length_append, List.length_singleton]
        omega
    · subst hn
      exact happend k m hm c hc

/-- A stack whose parents are placed is emptied with each of its nodes placed and children behind their parents. -/
theorem below_flatten {i : Intake} {nodes nodes' : List Branch} {stack : List (Node × Option Nat)}
    (h : flatten i nodes stack = .ok nodes') (hb : Below nodes)
    (hs : ∀ e ∈ stack, ∀ p ∈ e.2, p < nodes.length) :
    Below nodes' ∧ nodes'.length = nodes.length + Node.countAll (stack.map (·.1)) := by
  induction nodes, stack using flatten.induct with
  | case1 nodes =>
    rw [flatten] at h
    cases h
    exact ⟨hb, rfl⟩
  | case2 nodes n parent stack ih =>
    rw [flatten] at h
    cases hbranch : branch i nodes.length n with
    | error e => simp [hbranch, bind, Except.bind] at h
    | ok b =>
      simp only [hbranch, bind, Except.bind] at h
      have hlength : (adopt (nodes ++ [b]) parent nodes.length).length = nodes.length + 1 := by
        rw [length_adopt, List.length_append, List.length_singleton]
      -- the parent of the children that go on the stack is the node just placed
      obtain ⟨hbelow, hcount⟩ := ih b h
        (below_place hb (children_of_branch hbranch) (hs (n, parent) List.mem_cons_self)) (by
          intro e he p hp
          rw [hlength]
          rcases List.mem_append.mp he with he | he
          · obtain ⟨c, -, rfl⟩ := List.mem_map.mp he
            cases hp
            omega
          · have := hs e (List.mem_cons_of_mem _ he) p hp
            omega)
      refine ⟨hbelow, ?_⟩
      rw [hcount, hlength, List.map_append, List.map_map, Node.countAll_append, List.map_cons]
      show _ + (Node.countAll (n.children.map id) + _) = _ + (n.count + _)
      rw [List.map_id, n.count_eq]
      omega

/-- A tree is flattened to at least its root, and children stand behind their parents. -/
theorem below_root {i : Intake} {root : Node} {nodes : List Branch}
    (h : flatten i [] [(root, none)] = .ok nodes) : 0 < nodes.length ∧ Below nodes := by
  obtain ⟨hbelow, hcount⟩ := below_flatten h (fun k n hk => by simp at hk)
    (fun e he p hp => by simp_all)
  refine ⟨?_, hbelow⟩
  have : Node.countAll [root] = root.count := Nat.add_zero _
  have := root.count_eq
  simp only [List.map_cons, List.map_nil, List.length_nil] at hcount
  omega

/-- The flattened tree with the given root. Its observations show the fields of the intake. -/
def ofRoot (root : Node) (i : Intake) (strategy : NoTrueChildStrategy) : Outcome DecisionTree :=
  match h : flatten i [] [(root, none)] with
  | .error e => .error e
  | .ok nodes => .ok ⟨nodes, (below_root h).1, (below_root h).2, i.names, strategy⟩

/-! ## Walking down -/

def holds (t : DecisionTree) (o : Observation) (place : Nat) : Bool :=
  match t.nodes[place]? with
  | some n => n.condition.evaluate o == some true
  | none => false

/-- The nodes passed on the way down from a place, and the node that decides. -/
def descend (t : DecisionTree) (o : Observation) (place : Nat) (h : place < t.nodes.length) :
    Outcome (List Branch × Branch) :=
  let n := t.nodes[place]
  if n.children.isEmpty then .ok ([], n)
  else
    match hc : n.children.find? (t.holds o) with
    | some child =>
      -- children stand behind their parent, so the walk comes to an end
      have := t.below place n (List.getElem?_eq_getElem h) child (List.mem_of_find?_eq_some hc)
      do
        let (passed, last) ← t.descend o child (by omega)
        .ok (n :: passed, last)
    | none =>
      if t.strategy = .returnLastPrediction && n.label.isSome then .ok ([], n)
      else .error (.mismatch (.noChild n.id))
termination_by t.nodes.length - place

/-- The way from the root to the node that decides. The observation has to show the tree's fields and nothing
else, and the condition of the root has to hold. -/
def walk (t : DecisionTree) (o : Observation) : Outcome (List Branch × Branch) := do
  o.check t.fields
  if t.holds o 0 then t.descend o 0 t.nonempty else .error (.mismatch .rootFails)

def prediction (n : Branch) : Outcome String :=
  match n.label with
  | some label => .ok label
  | none => .error (.mismatch (.noPrediction n.id))

def classify (t : DecisionTree) (o : Observation) : Outcome String := do
  let (_, last) ← t.walk o
  prediction last

/-- The class of an observation, the probabilities at the node that decides, and the way to it. -/
def explain (t : DecisionTree) (o : Observation) : Outcome Explanation := do
  let (passed, last) ← t.walk o
  let label ← prediction last
  .ok {
    label
    probabilities := Table.ofList last.distribution
    scores := .empty
    terms := .empty
    path := (passed ++ [last]).map (·.id) }

end DecisionTree

/-! ## Fields -/

mutual

/-- The fields that a node and those below it test, as often as they test them. -/
def Spec.Node.fields : Node → List String
  | .node _ _ _ predicate children _ => predicate.fields ++ Spec.Node.fieldsOfAll children

def Spec.Node.fieldsOfAll : List Node → List String
  | [] => []
  | n :: rest => n.fields ++ Spec.Node.fieldsOfAll rest

end

/-- The fields that a tree tests, each once and ascending. -/
def Spec.Node.testedFields (root : Node) : List String :=
  (Table.ofNames root.fields).names

end Scoring
