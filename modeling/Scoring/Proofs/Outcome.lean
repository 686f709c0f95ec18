import Mathlib.Data.List.Forall2
import Mathlib.Data.List.Perm.Basic
import Scoring.Fault

/-!
# Outcome — how computations that may fail take apart

A sequence of steps succeeds when each step does, and fails with the failure of the first step that does not.
A traversal is a sequence with one step for each item, so its results stand in the order of the items.
-/

namespace Scoring.Outcome

variable {α β : Type}

/-! ## 1. Two steps -/

theorem bind_eq_ok {x : Outcome α} {f : α → Outcome β} {b : β} :
    (x >>= f) = .ok b ↔ ∃ a, x = .ok a ∧ f a = .ok b := by
  cases x with
  | error e => simp [bind, Except.bind]
  | ok a => simp [bind, Except.bind]

theorem bind_eq_error {x : Outcome α} {f : α → Outcome β} {e : Fault} :
    (x >>= f) = .error e ↔ x = .error e ∨ ∃ a, x = .ok a ∧ f a = .error e := by
  cases x with
  | error e' => simp [bind, Except.bind]
  | ok a => simp [bind, Except.bind]

theorem map_eq_ok {x : Outcome α} {f : α → β} {b : β} : x.map f = .ok b ↔ ∃ a, x = .ok a ∧ f a = b := by
  cases x with
  | error e => simp [Except.map]
  | ok a => simp [Except.map]

theorem map_eq_error {x : Outcome α} {f : α → β} {e : Fault} : x.map f = .error e ↔ x = .error e := by
  cases x with
  | error e' => simp [Except.map]
  | ok a => simp [Except.map]

/-- A step that succeeds hands its result on. -/
@[simp] theorem ok_bind (a : α) (f : α → Outcome β) : (Except.ok a >>= f : Outcome β) = f a := rfl

/-- Nothing runs behind a step that fails. -/
@[simp] theorem error_bind (e : Fault) (f : α → Outcome β) :
    (Except.error e >>= f : Outcome β) = .error e := rfl

theorem toOption_eq_some_iff {x : Outcome α} {a : α} : x.toOption = some a ↔ x = .ok a := by
  cases x with
  | error e => simp [Except.toOption]
  | ok b => simp [Except.toOption]

/-- What is seen of a result that is there, is seen of some result. -/
theorem exists_of_toOption_map {x : Outcome α} {f : α → β} {b : β}
    (h : x.toOption.map f = some b) : ∃ a, x = .ok a ∧ f a = b := by
  cases x with
  | error e => cases h
  | ok a => exact ⟨a, rfl, Option.some.inj h⟩

theorem exists_of_isOk {x : Outcome α} (h : x.isOk = true) : ∃ a, x = .ok a := by
  cases x with
  | error e => cases h
  | ok a => exact ⟨a, rfl⟩

/-! ## 2. Traversals -/

/-- A traversal succeeds exactly with one result for each item. -/
theorem mapM_eq_ok {f : α → Outcome β} {xs : List α} {ys : List β} :
    xs.mapM f = .ok ys ↔ List.Forall₂ (fun x y => f x = .ok y) xs ys := by
  induction xs generalizing ys with
  | nil =>
    rw [List.mapM_nil, List.forall₂_nil_left_iff]
    simp only [pure, Except.pure, Except.ok.injEq]
    exact eq_comm
  | cons x xs ih =>
    -- the first result belongs to the first item, the others to the others
    rw [List.mapM_cons, List.forall₂_cons_left_iff]
    simp only [bind_eq_ok, pure, Except.pure, Except.ok.injEq, ih]
    constructor
    · rintro ⟨y, hy, rest, hrest, rfl⟩
      exact ⟨y, rest, hy, hrest, rfl⟩
    · rintro ⟨y, rest, hy, hrest, rfl⟩
      exact ⟨y, hy, rest, hrest, rfl⟩

/-- A traversal succeeds as soon as each of its steps does. -/
theorem exists_mapM_eq_ok_iff {f : α → Outcome β} {xs : List α} :
    (∃ ys, xs.mapM f = .ok ys) ↔ ∀ x ∈ xs, ∃ y, f x = .ok y := by
  simp only [mapM_eq_ok]
  induction xs with
  | nil => simp
  | cons x xs ih =>
    rw [List.forall_mem_cons, ← ih]
    constructor
    · rintro ⟨_, _ | ⟨hy, hrest⟩⟩
      exact ⟨⟨_, hy⟩, _, hrest⟩
    · rintro ⟨⟨y, hy⟩, ys, hrest⟩
      exact ⟨y :: ys, .cons hy hrest⟩

/-- A traversal fails at the first item that does, and with the failure of that item. -/
theorem mapM_eq_error {f : α → Outcome β} {xs : List α} {e : Fault} :
    xs.mapM f = .error e ↔ ∃ before x after, xs = before ++ x :: after ∧
      (∀ y ∈ before, ∃ b, f y = .ok b) ∧ f x = .error e := by
  induction xs with
  | nil => simp [pure, Except.pure]
  | cons x xs ih =>
    rw [List.mapM_cons]
    cases hx : f x with
    | error e' =>
      rw [error_bind, Except.error.injEq]
      constructor
      · rintro rfl
        exact ⟨[], x, xs, rfl, by simp, hx⟩
      · rintro ⟨before, y, after, heq, hbefore, hy⟩
        rcases List.cons_eq_append_iff.mp heq with ⟨rfl, heq⟩ | ⟨before', rfl, rfl⟩
        · cases heq
          rw [hx, Except.error.injEq] at hy
          exact hy
        -- the first item would have to succeed
        · obtain ⟨b, hb⟩ := hbefore x List.mem_cons_self
          rw [hx] at hb
          cases hb
    | ok b =>
      have hrest : (xs.mapM f >>= fun bs => (pure (b :: bs) : Outcome (List β))) = .error e ↔
          xs.mapM f = .error e := by
        cases xs.mapM f <;> simp [pure, Except.pure]
      rw [ok_bind, hrest, ih]
      constructor
      · rintro ⟨before, y, after, rfl, hbefore, hy⟩
        refine ⟨x :: before, y, after, rfl, ?_, hy⟩
        exact List.forall_mem_cons.mpr ⟨⟨b, hx⟩, hbefore⟩
      · rintro ⟨before, y, after, heq, hbefore, hy⟩
        rcases List.cons_eq_append_iff.mp heq with ⟨rfl, heq⟩ | ⟨before', rfl, rfl⟩
        · cases heq
          rw [hx] at hy
          cases hy
        · exact ⟨before', y, after, rfl, (List.forall_mem_cons.mp hbefore).2, hy⟩

/-- A traversal that fails does so with the failure of an item. -/
theorem exists_of_mapM_eq_error {f : α → Outcome β} {xs : List α} {e : Fault}
    (h : xs.mapM f = .error e) : ∃ x ∈ xs, f x = .error e := by
  obtain ⟨before, x, after, rfl, -, hx⟩ := mapM_eq_error.mp h
  exact ⟨x, by simp, hx⟩

theorem exists_right_of_forall₂ {R : α → β → Prop} {xs : List α} {ys : List β}
    (h : List.Forall₂ R xs ys) {x : α} (hx : x ∈ xs) : ∃ y ∈ ys, R x y := by
  induction h with
  | nil => simp at hx
  | @cons a b as bs hab _ ih =>
    rcases List.mem_cons.mp hx with rfl | hx
    · exact ⟨b, List.mem_cons_self, hab⟩
    · obtain ⟨y, hy, hxy⟩ := ih hx
      exact ⟨y, List.mem_cons_of_mem b hy, hxy⟩

theorem exists_left_of_forall₂ {R : α → β → Prop} {xs : List α} {ys : List β}
    (h : List.Forall₂ R xs ys) {y : β} (hy : y ∈ ys) : ∃ x ∈ xs, R x y := by
  obtain ⟨x, hx, hxy⟩ := exists_right_of_forall₂ h.flip hy
  exact ⟨x, hx, hxy⟩

/-- Where every item gives `g` of it, so does the traversal. -/
theorem eq_map_of_forall₂ {g : α → β} {xs : List α} {ys : List β}
    (h : List.Forall₂ (fun x y => y = g x) xs ys) : ys = xs.map g := by
  induction h with
  | nil => rfl
  | cons hxy _ ih => rw [hxy, ih, List.map_cons]

/-- A fold that fails does so at one of the items. -/
theorem exists_of_foldlM_eq_error {f : β → α → Outcome β} {xs : List α} {b : β} {e : Fault}
    (h : xs.foldlM f b = .error e) : ∃ b', ∃ x ∈ xs, f b' x = .error e := by
  induction xs generalizing b with
  | nil => simp [pure, Except.pure] at h
  | cons x xs ih =>
    rw [List.foldlM_cons, bind_eq_error] at h
    rcases h with hx | ⟨b', -, hrest⟩
    · exact ⟨b, x, List.mem_cons_self, hx⟩
    · obtain ⟨b'', x', hmem, hx'⟩ := ih hrest
      exact ⟨b'', x', List.mem_cons_of_mem x hmem, hx'⟩

/-- A fold that succeeds has taken a step for each item. -/
theorem exists_of_foldlM_eq_ok {f : β → α → Outcome β} {xs : List α} {b b' : β} (h : xs.foldlM f b = .ok b')
    {x : α} (hx : x ∈ xs) : ∃ c c', f c x = .ok c' := by
  induction xs generalizing b with
  | nil => cases hx
  | cons y ys ih =>
    rw [List.foldlM_cons, bind_eq_ok] at h
    obtain ⟨c, hstep, hrest⟩ := h
    rcases List.mem_cons.mp hx with rfl | hx
    · exact ⟨b, c, hstep⟩
    · exact ih hrest hx

/-- What every step of a fold keeps, the whole fold keeps. -/
theorem foldlM_invariant {P : β → Prop} {f : β → α → Outcome β} {xs : List α} {b b' : β}
    (hstep : ∀ x ∈ xs, ∀ c c', P c → f c x = .ok c' → P c') (hb : P b) (h : xs.foldlM f b = .ok b') :
    P b' := by
  induction xs generalizing b with
  | nil =>
    simp only [List.foldlM_nil, pure, Except.pure, Except.ok.injEq] at h
    exact h ▸ hb
  | cons x xs ih =>
    rw [List.foldlM_cons, bind_eq_ok] at h
    obtain ⟨c, hc, hrest⟩ := h
    -- the first step keeps it, and the rest of the fold starts from there
    refine ih (fun x' hx' => hstep x' (List.mem_cons_of_mem x hx')) ?_ hrest
    exact hstep x List.mem_cons_self b c hb hc

/-! ## 3. Other items, other orders -/

/-- A traversal depends only on what its steps give for the items. -/
theorem mapM_congr {f g : α → Outcome β} {xs : List α} (h : ∀ x ∈ xs, f x = g x) :
    xs.mapM f = xs.mapM g := by
  induction xs with
  | nil => rfl
  | cons x xs ih =>
    rw [List.forall_mem_cons] at h
    rw [List.mapM_cons, List.mapM_cons, h.1, ih h.2]

/-- A traversal of the same items in another order gives the same results in another order. -/
theorem exists_mapM_of_perm {f : α → Outcome β} {xs xs' : List α} {ys : List β} (h : xs.Perm xs')
    (hys : xs.mapM f = .ok ys) : ∃ ys', xs'.mapM f = .ok ys' ∧ ys.Perm ys' := by
  obtain ⟨ys', hys', hperm⟩ := List.perm_comp_forall₂ h.symm (mapM_eq_ok.mp hys)
  exact ⟨ys', mapM_eq_ok.mpr hys', hperm.symm⟩

/-- Where any two steps that succeed one after the other also do so the other way round, a fold does not depend on the
order of the items. -/
theorem foldlM_of_perm {f : β → α → Outcome β}
    (hswap : ∀ b c x y, (f b x >>= (f · y)) = .ok c → (f b y >>= (f · x)) = .ok c) {xs ys : List α}
    (h : xs.Perm ys) {b c : β} (hxs : xs.foldlM f b = .ok c) : ys.foldlM f b = .ok c := by
  induction h generalizing b with
  | nil => exact hxs
  | cons x _ ih =>
    rw [List.foldlM_cons, bind_eq_ok] at hxs ⊢
    obtain ⟨b', hstep, hrest⟩ := hxs
    exact ⟨b', hstep, ih hrest⟩
  | swap x y xs =>
    simp only [List.foldlM_cons, ← bind_assoc] at hxs ⊢
    rw [bind_eq_ok] at hxs ⊢
    obtain ⟨b', hsteps, hrest⟩ := hxs
    exact ⟨b', hswap _ _ _ _ hsteps, hrest⟩
  | trans _ _ ih₁ ih₂ => exact ih₂ (ih₁ hxs)

/-! ## 4. Kinds of failures -/

def FailsOnly (kinds : List FaultKind) (x : Outcome α) : Prop :=
  ∀ e, x = .error e → e.kind ∈ kinds

variable {kinds : List FaultKind}

theorem FailsOnly.ok (a : α) : FailsOnly kinds (.ok a) := by
  intro e h
  cases h

theorem FailsOnly.error {e : Fault} (h : e.kind ∈ kinds) : FailsOnly kinds (.error e : Outcome α) := by
  intro e' h'
  cases h'
  exact h

theorem FailsOnly.bind {x : Outcome α} {f : α → Outcome β} (hx : FailsOnly kinds x)
    (hf : ∀ a, FailsOnly kinds (f a)) : FailsOnly kinds (x >>= f) := by
  intro e h
  rcases bind_eq_error.mp h with h | ⟨a, -, h⟩
  · exact hx e h
  · exact hf a e h

/-- What is made of a result fails as the result does. -/
theorem FailsOnly.map {x : Outcome α} (hx : FailsOnly kinds x) (f : α → β) :
    FailsOnly kinds (x >>= fun a => .ok (f a)) :=
  hx.bind fun a => .ok (f a)

theorem FailsOnly.mapM {f : α → Outcome β} (hf : ∀ x, FailsOnly kinds (f x)) (xs : List α) :
    FailsOnly kinds (xs.mapM f) := by
  intro e h
  obtain ⟨x, -, hx⟩ := exists_of_mapM_eq_error h
  exact hf x e hx

theorem FailsOnly.foldlM {f : β → α → Outcome β} (hf : ∀ b x, FailsOnly kinds (f b x)) (xs : List α)
    (b : β) : FailsOnly kinds (xs.foldlM f b) := by
  intro e h
  obtain ⟨b', x, -, hx⟩ := exists_of_foldlM_eq_error h
  exact hf b' x e hx

end Scoring.Outcome
