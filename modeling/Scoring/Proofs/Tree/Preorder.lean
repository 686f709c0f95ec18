import Scoring.DecisionTree
import Scoring.Proofs.Outcome

/-!
# Preorder — the stack and the recursion place nodes alike

A tree is flattened with a stack. `preorder` does the same by recursion on the tree: a node, then the trees of its
children one behind the other. `flatten_node` is the step from one to the other: a node on top of the stack leaves
its whole tree behind the nodes that are placed already. `Planted` then says where each node of a tree stands. A tree
that is not compiled has a node that cannot be placed (`exists_of_ofRoot_eq_error`).
-/

namespace Scoring

open Spec (Node NoTrueChildStrategy Predicate ScoreEntry)

inductive Spec.Node.Within (n : Node) : Node → Prop
  | root : Within n n
  | deeper {root child : Node} (mem : child ∈ root.children) (within : Within n child) : Within n root

namespace DecisionTree

/-! ## 1. Recursion on the tree -/

mutual

/-- The nodes of a tree in preorder; the first one gets the place `start`. -/
def preorder (i : Intake) (start : Nat) : Node → Outcome (List Branch)
  | .node id score count predicate children entries => do
    let b ← branch i start (.node id score count predicate children entries)
    let (places, behind) ← preorderAll i (start + 1) children
    .ok ({ b with children := places } :: behind)

/-- The nodes of several trees one behind the other, and the places of their roots. -/
def preorderAll (i : Intake) (start : Nat) : List Node → Outcome (List Nat × List Branch)
  | [] => .ok ([], [])
  | n :: rest => do
    let nodes ← preorder i start n
    let (places, behind) ← preorderAll i (start + nodes.length) rest
    .ok (start :: places, nodes ++ behind)

end

/-! ## 2. Children and their parents -/

def adoptAll (nodes : List Branch) (parent : Nat) (places : List Nat) : List Branch :=
  nodes.modify parent fun n => { n with children := n.children ++ places }

theorem length_adoptAll (nodes : List Branch) (parent : Nat) (places : List Nat) :
    (adoptAll nodes parent places).length = nodes.length :=
  List.length_modify ..

theorem adoptAll_nil (nodes : List Branch) (parent : Nat) : adoptAll nodes parent [] = nodes := by
  unfold adoptAll
  simp only [List.append_nil]
  exact List.modify_id parent nodes

theorem adoptAll_adoptAll (nodes : List Branch) (parent : Nat) (xs ys : List Nat) :
    adoptAll (adoptAll nodes parent xs) parent ys = adoptAll nodes parent (xs ++ ys) := by
  unfold adoptAll
  rw [List.modify_modify_eq]
  simp only [Function.comp_def, List.append_assoc]

/-- Nodes behind the parent do not change. -/
theorem adoptAll_append {nodes : List Branch} {parent : Nat} (h : parent < nodes.length)
    (places : List Nat) (behind : List Branch) :
    adoptAll (nodes ++ behind) parent places = adoptAll nodes parent places ++ behind := by
  apply List.ext_getElem?
  intro k
  unfold adoptAll
  rw [List.getElem?_modify, List.getElem?_append, List.getElem?_append, List.length_modify]
  -- the parent is one of the nodes in front
  by_cases hk : k < nodes.length
  · rw [if_pos hk, if_pos hk, List.getElem?_modify]
  · rw [if_neg hk, if_neg hk]
    have hne : parent ≠ k := by omega
    simp [hne]

theorem adopt_append {nodes : List Branch} {parent : Option Nat} (h : ∀ p ∈ parent, p < nodes.length)
    (child : Nat) (behind : List Branch) :
    adopt (nodes ++ behind) parent child = adopt nodes parent child ++ behind := by
  cases parent with
  | none => rfl
  | some p => exact adoptAll_append (h p rfl) [child] behind

/-- A node that stands last takes its children. -/
theorem adoptAll_last (nodes : List Branch) {b : Branch} (hb : b.children = []) (places : List Nat) :
    adoptAll (nodes ++ [b]) nodes.length places = nodes ++ [{ b with children := places }] := by
  apply List.ext_getElem?
  intro k
  unfold adoptAll
  rw [List.getElem?_modify, List.getElem?_append, List.getElem?_append]
  by_cases hk : k < nodes.length
  · have hne : nodes.length ≠ k := by omega
    simp [hk, hne]
  · rw [if_neg hk, if_neg hk, List.getElem?_singleton, List.getElem?_singleton]
    by_cases hzero : k - nodes.length = 0
    · have heq : nodes.length = k := by omega
      simp [heq, hb]
    · simp [hzero]

/-! ## 3. The stack -/

mutual

/-- A node on top of the stack is taken away with everything below it. -/
theorem flatten_node {i : Intake} (n : Node) {nodes : List Branch} {parent : Option Nat}
    {stack : List (Node × Option Nat)} (hp : ∀ p ∈ parent, p < nodes.length) :
    flatten i nodes ((n, parent) :: stack) = (do
      let ns ← preorder i nodes.length n
      flatten i (adopt nodes parent nodes.length ++ ns) stack : Outcome (List Branch)) := by
  obtain ⟨id, score, count, predicate, children, entries⟩ := n
  rw [flatten, preorder]
  cases hb : branch i nodes.length (.node id score count predicate children entries) with
  | error e => rfl
  | ok b =>
    have hchildren := children_of_branch hb
    rw [Outcome.ok_bind, Outcome.ok_bind, adopt_append hp]
    have hlength : (adopt nodes parent nodes.length ++ [b]).length = nodes.length + 1 := by
      rw [List.length_append, length_adopt, List.length_singleton]
    have hlast : nodes.length < (adopt nodes parent nodes.length ++ [b]).length := by omega
    show flatten i _ (children.map (·, some nodes.length) ++ stack) = _
    rw [flatten_siblings children hlast, hlength]
    cases preorderAll i (nodes.length + 1) children with
    | error e => rfl
    | ok result =>
      obtain ⟨places, behind⟩ := result
      -- the places go to the node itself, which stands last when its children come
      have htake := adoptAll_last (adopt nodes parent nodes.length) hchildren places
      rw [length_adopt] at htake
      simp only [Outcome.ok_bind, htake, List.append_assoc, List.singleton_append]

/-- The children of a node leave their trees one behind the other, and their places at the node. -/
theorem flatten_siblings {i : Intake} (ns : List Node) {nodes : List Branch} {parent : Nat}
    {stack : List (Node × Option Nat)} (hp : parent < nodes.length) :
    flatten i nodes (ns.map (·, some parent) ++ stack) = (do
      let (places, behind) ← preorderAll i nodes.length ns
      flatten i (adoptAll nodes parent places ++ behind) stack : Outcome (List Branch)) := by
  match ns with
  | [] =>
    rw [preorderAll, Outcome.ok_bind, List.map_nil, List.nil_append]
    show _ = flatten i (adoptAll nodes parent [] ++ []) stack
    rw [adoptAll_nil, List.append_nil]
  | n :: rest =>
    rw [List.map_cons, List.cons_append, flatten_node n (fun p hp' => by cases hp'; exact hp), preorderAll]
    cases preorder i nodes.length n with
    | error e => rfl
    | ok first =>
      have hadopt : adopt nodes (some parent) nodes.length = adoptAll nodes parent [nodes.length] := rfl
      have hlength : (adoptAll nodes parent [nodes.length] ++ first).length =
          nodes.length + first.length := by
        rw [List.length_append, length_adoptAll]
      have hp' : parent < (adoptAll nodes parent [nodes.length] ++ first).length := by omega
      -- the trees behind start where the first one ends
      rw [Outcome.ok_bind, Outcome.ok_bind, hadopt, flatten_siblings rest hp', hlength]
      cases preorderAll i (nodes.length + first.length) rest with
      | error e => rfl
      | ok result =>
        obtain ⟨places, behind⟩ := result
        have hparent : parent < (adoptAll nodes parent [nodes.length]).length := by
          rw [length_adoptAll]
          exact hp
        simp only [Outcome.ok_bind, adoptAll_append hparent, adoptAll_adoptAll, List.append_assoc,
          List.singleton_append]

end

/-- Flattening with a stack is the recursion on the tree. -/
theorem flatten_eq_preorder (i : Intake) (root : Node) :
    flatten i [] [(root, none)] = preorder i 0 root := by
  rw [flatten_node root (fun p hp => by cases hp)]
  cases preorder i 0 root with
  | error e => rfl
  | ok ns =>
    show flatten i ([] ++ ns) [] = _
    rw [flatten, List.nil_append]

theorem exists_of_ofRoot {root : Node} {i : Intake} {strategy : NoTrueChildStrategy} {t : DecisionTree}
    (h : ofRoot root i strategy = .ok t) :
    preorder i 0 root = .ok t.nodes ∧ t.fields = i.names ∧ t.strategy = strategy := by
  unfold ofRoot at h
  split at h
  · cases h
  · rename_i nodes hnodes
    cases h
    exact ⟨flatten_eq_preorder i root ▸ hnodes, rfl, rfl⟩

/-! ## 4. Failures -/

/-- The children that go on the stack bring no node that was not below it before. -/
theorem within_of_push {stack : List (Node × Option Nat)} {n m : Node} {parent : Option Nat} {place : Nat}
    (h : ∃ s ∈ n.children.map (·, some place) ++ stack, m.Within s.1) : ∃ s ∈ (n, parent) :: stack, m.Within s.1 := by
  obtain ⟨s, hs, hwithin⟩ := h
  rcases List.mem_append.mp hs with hs | hs
  · obtain ⟨child, hchild, rfl⟩ := List.mem_map.mp hs
    exact ⟨_, List.mem_cons_self, .deeper hchild hwithin⟩
  · exact ⟨s, List.mem_cons_of_mem _ hs, hwithin⟩

/-- Flattening that fails does so at one of the nodes below the stack. -/
theorem exists_of_flatten_eq_error {i : Intake} {nodes : List Branch} {stack : List (Node × Option Nat)} {e : Fault}
    (h : flatten i nodes stack = .error e) :
    ∃ m : Node, (∃ s ∈ stack, m.Within s.1) ∧ ∃ place, branch i place m = .error e := by
  induction nodes, stack using flatten.induct with
  | case1 nodes =>
    rw [flatten] at h
    cases h
  | case2 nodes n parent stack ih =>
    rw [flatten, Outcome.bind_eq_error] at h
    rcases h with h | ⟨b, -, h⟩
    · exact ⟨n, ⟨_, List.mem_cons_self, .root⟩, _, h⟩
    · obtain ⟨m, hwithin, herror⟩ := ih b h
      exact ⟨m, within_of_push hwithin, herror⟩

/-- A tree that is not compiled has a node that cannot be placed. -/
theorem exists_of_ofRoot_eq_error {root : Node} {i : Intake} {strategy : NoTrueChildStrategy} {e : Fault}
    (h : ofRoot root i strategy = .error e) : ∃ m : Node, m.Within root ∧ ∃ place, branch i place m = .error e := by
  unfold ofRoot at h
  split at h
  · rename_i e' hflatten
    cases h
    obtain ⟨m, ⟨s, hs, hwithin⟩, hbranch⟩ := exists_of_flatten_eq_error hflatten
    cases List.mem_singleton.mp hs
    exact ⟨m, hwithin, hbranch⟩
  · cases h

/-! ## 5. Places -/

mutual

theorem length_preorder {i : Intake} {start : Nat} (n : Node) {ns : List Branch}
    (h : preorder i start n = .ok ns) : ns.length = n.count := by
  obtain ⟨id, score, count, predicate, children, entries⟩ := n
  unfold preorder at h
  simp only [Outcome.bind_eq_ok] at h
  obtain ⟨b, -, result, hall, hns⟩ := h
  cases hns
  have := length_preorderAll children hall
  show _ = Node.countAll children + 1
  rw [List.length_cons, this]

theorem length_preorderAll {i : Intake} {start : Nat} (ns : List Node)
    {result : List Nat × List Branch} (h : preorderAll i start ns = .ok result) :
    result.2.length = Node.countAll ns := by
  match ns with
  | [] =>
    cases h
    rfl
  | n :: rest =>
    unfold preorderAll at h
    simp only [Outcome.bind_eq_ok] at h
    obtain ⟨first, hfirst, behind, hrest, hresult⟩ := h
    cases hresult
    show (first ++ behind.2).length = n.count + Node.countAll rest
    rw [List.length_append, length_preorder n hfirst, length_preorderAll rest hrest]

end

mutual

/-- A tree stands in a row from `start` on, its nodes at their places in preorder. -/
def Planted (i : Intake) (nodes : List Branch) (start : Nat) : Node → Prop
  | .node id score count predicate children entries => ∃ b places,
    branch i start (.node id score count predicate children entries) = .ok b ∧
      nodes[start]? = some { b with children := places } ∧ PlantedAll i nodes (start + 1) places children

/-- Trees stand one behind the other from `start` on, with their roots at the given places. -/
def PlantedAll (i : Intake) (nodes : List Branch) (start : Nat) (places : List Nat) : List Node → Prop
  | [] => places = []
  | n :: rest => ∃ others, places = start :: others ∧ Planted i nodes start n ∧
    PlantedAll i nodes (start + n.count) others rest

end

mutual

theorem planted_of_preorder {i : Intake} {nodes : List Branch} {start : Nat} (n : Node)
    {ns : List Branch} (h : preorder i start n = .ok ns)
    (hns : ∀ (k : Nat) b, ns[k]? = some b → nodes[start + k]? = some b) : Planted i nodes start n := by
  obtain ⟨id, score, count, predicate, children, entries⟩ := n
  unfold preorder at h
  simp only [Outcome.bind_eq_ok] at h
  obtain ⟨b, hb, ⟨places, behind⟩, hall, heq⟩ := h
  cases heq
  refine ⟨b, places, hb, hns 0 _ rfl, plantedAll_of_preorderAll children hall fun k c hc => ?_⟩
  have := hns (k + 1) c hc
  rwa [show start + (k + 1) = start + 1 + k by omega] at this

theorem plantedAll_of_preorderAll {i : Intake} {nodes : List Branch} {start : Nat} (ns : List Node)
    {places : List Nat} {behind : List Branch} (h : preorderAll i start ns = .ok (places, behind))
    (hns : ∀ (k : Nat) b, behind[k]? = some b → nodes[start + k]? = some b) :
    PlantedAll i nodes start places ns := by
  match ns with
  | [] =>
    cases h
    rfl
  | n :: rest =>
    unfold preorderAll at h
    simp only [Outcome.bind_eq_ok] at h
    obtain ⟨first, hfirst, ⟨others, last⟩, hrest, heq⟩ := h
    cases heq
    have hlength := length_preorder n hfirst
    refine ⟨others, rfl, planted_of_preorder n hfirst fun k b hb => hns k b ?_, ?_⟩
    · rw [List.getElem?_append_left (List.getElem?_eq_some_iff.mp hb).1]
      exact hb
    · rw [hlength] at hrest
      refine plantedAll_of_preorderAll rest hrest fun k b hb => ?_
      -- the places behind the first tree are shifted by its size
      have := hns (first.length + k) b (by
        rw [List.getElem?_append_right (by omega), Nat.add_sub_cancel_left]
        exact hb)
      rwa [hlength, ← Nat.add_assoc] at this

end

/-- The nodes of a flattened tree stand at their places in preorder. -/
theorem planted_of_ofRoot {root : Node} {i : Intake} {strategy : NoTrueChildStrategy} {t : DecisionTree}
    (h : ofRoot root i strategy = .ok t) : Planted i t.nodes 0 root := by
  refine planted_of_preorder root (exists_of_ofRoot h).1 fun k b hb => ?_
  rwa [Nat.zero_add]

end DecisionTree

end Scoring
