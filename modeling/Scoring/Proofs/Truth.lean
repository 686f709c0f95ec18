import Mathlib.Algebra.Ring.Parity
import Mathlib.Data.List.Forall2
import Mathlib.Order.Bounds.Basic
import Mathlib.Order.Lattice.Nat
import Scoring.Truth

/-!
# Truth — loops over answers, and the two orders of answers

The loops of the model join answers one by one: each is the fold of a connective of strong Kleene logic (`all_eq_foldr`,
`any_eq_foldr`, `parity_eq_foldr`).

Answers are ordered twice. From false over unknown to true, a conjunction is the least of its parts and a disjunction
the greatest (`isLeast_all`, `isGreatest_any`), so that neither depends on the order in which the parts are listed. And
an unknown answer may become known when more is learnt: then the answers of conjunctions, disjunctions and exclusive
disjunctions that were known before are kept (`Keeps.foldr`).
-/

namespace Scoring.Truth

def not (t : Truth) : Truth :=
  t.map (!·)

/-! ## 1. Connectives and loops -/

/-- Both hold: false if either does not, else unknown if either is. -/
def and : Truth → Truth → Truth
  | some false, _ | _, some false => some false
  | some true, some true => some true
  | _, _ => none

/-- One of them holds: true if either does, else unknown if either is. -/
def or : Truth → Truth → Truth
  | some true, _ | _, some true => some true
  | some false, some false => some false
  | _, _ => none

/-- Exactly one of them holds: unknown if either is. -/
def xor : Truth → Truth → Truth
  | some a, some b => some (a != b)
  | _, _ => none

/-- Once a part was unknown, only the decisive answer is still found. -/
theorem untilDecided_true (decisive : Bool) (ts : List Truth) :
    untilDecided decisive true ts =
      if untilDecided decisive false ts = some decisive then some decisive else none := by
  induction ts with
  | nil => cases decisive <;> rfl
  | cons t rest ih =>
    rcases t with _ | b
    · simp only [untilDecided, ih]
      split <;> simp_all
    · by_cases hb : b = decisive
      · simp only [untilDecided, if_pos hb, if_true]
      · simp only [untilDecided, if_neg hb, ih]

theorem all_cons (t : Truth) (rest : List Truth) : all (t :: rest) = and t (all rest) := by
  rcases t with _ | _ | _
  · unfold all
    rw [untilDecided, untilDecided_true]
    rcases untilDecided false false rest with _ | _ | _ <;> rfl
  · rfl
  · show all rest = _
    rcases all rest with _ | _ | _ <;> rfl

theorem any_cons (t : Truth) (rest : List Truth) : any (t :: rest) = or t (any rest) := by
  rcases t with _ | _ | _
  · unfold any
    rw [untilDecided, untilDecided_true]
    rcases untilDecided true false rest with _ | _ | _ <;> rfl
  · show any rest = _
    rcases any rest with _ | _ | _ <;> rfl
  · rfl

theorem parityFrom_eq (result : Bool) (ts : List Truth) :
    parityFrom result ts = xor (some result) (parity ts) := by
  induction ts generalizing result with
  | nil => cases result <;> rfl
  | cons t rest ih =>
    rcases t with _ | b
    · rfl
    · rw [parity, parityFrom, parityFrom, ih, ih (false != b)]
      cases parity rest with
      | none => rfl
      | some c => cases result <;> cases b <;> cases c <;> rfl

theorem parity_cons (t : Truth) (rest : List Truth) : parity (t :: rest) = xor t (parity rest) := by
  rcases t with _ | b
  · rfl
  · rw [parity, parityFrom, parityFrom_eq, Bool.false_bne]

/-- What joins one answer after the other is a fold. -/
theorem eq_foldr {g : List Truth → Truth} {f : Truth → Truth → Truth} {e : Truth} (hnil : g [] = e)
    (hcons : ∀ t rest, g (t :: rest) = f t (g rest)) (ts : List Truth) : g ts = ts.foldr f e := by
  induction ts with
  | nil => exact hnil
  | cons t rest ih => rw [hcons, List.foldr_cons, ih]

theorem all_eq_foldr (ts : List Truth) : all ts = ts.foldr and (some true) :=
  eq_foldr rfl all_cons ts

theorem any_eq_foldr (ts : List Truth) : any ts = ts.foldr or (some false) :=
  eq_foldr rfl any_cons ts

theorem parity_eq_foldr (ts : List Truth) : parity ts = ts.foldr xor (some false) :=
  eq_foldr rfl parity_cons ts

/-! ## 2. False, unknown, true -/

/-- The place of an answer: false comes before unknown, and unknown before true. -/
def rank : Truth → Nat
  | some false => 0
  | none => 1
  | some true => 2

theorem rank_injective : Function.Injective rank := by
  intro a b h
  rcases a with _ | _ | _ <;> rcases b with _ | _ | _ <;> first | rfl | cases h

theorem rank_and (a b : Truth) : rank (and a b) = min (rank a) (rank b) := by
  rcases a with _ | _ | _ <;> rcases b with _ | _ | _ <;> rfl

theorem rank_or (a b : Truth) : rank (or a b) = max (rank a) (rank b) := by
  rcases a with _ | _ | _ <;> rcases b with _ | _ | _ <;> rfl

theorem and_eq_or (a b : Truth) : and a b = a ∨ and a b = b := by
  rcases a with _ | _ | _ <;> rcases b with _ | _ | _ <;> simp [and]

theorem or_eq_or (a b : Truth) : or a b = a ∨ or a b = b := by
  rcases a with _ | _ | _ <;> rcases b with _ | _ | _ <;> simp [or]

theorem or_eq_not_and (a b : Truth) : or a b = not (and (not a) (not b)) := by
  rcases a with _ | _ | _ <;> rcases b with _ | _ | _ <;> rfl

theorem and_true (a : Truth) : and a (some true) = a := by
  rcases a with _ | _ | _ <;> rfl

theorem or_false (a : Truth) : or a (some false) = a := by
  rcases a with _ | _ | _ <;> rfl

/-- Where two answers are always joined to one of them, some answers are joined to one of them. -/
theorem foldr_mem {f : Truth → Truth → Truth} {e : Truth} (hf : ∀ a b, f a b = a ∨ f a b = b)
    (he : ∀ a, f a e = a) {ts : List Truth} (h : ts ≠ []) : ts.foldr f e ∈ ts := by
  induction ts with
  | nil => exact absurd rfl h
  | cons t rest ih =>
    rw [List.foldr_cons]
    by_cases hrest : rest = []
    · rw [hrest, List.foldr_nil, he]
      exact List.mem_cons_self
    · rcases hf t (rest.foldr f e) with heq | heq
      · rw [heq]
        exact List.mem_cons_self
      · rw [heq]
        exact List.mem_cons_of_mem t (ih hrest)

theorem rank_all_le {ts : List Truth} {t : Truth} (h : t ∈ ts) : rank (all ts) ≤ rank t := by
  induction ts with
  | nil => cases h
  | cons u rest ih =>
    rw [all_cons, rank_and]
    rcases List.mem_cons.mp h with rfl | h
    · exact Nat.min_le_left _ _
    · exact Nat.le_trans (Nat.min_le_right _ _) (ih h)

theorem le_rank_any {ts : List Truth} {t : Truth} (h : t ∈ ts) : rank t ≤ rank (any ts) := by
  induction ts with
  | nil => cases h
  | cons u rest ih =>
    rw [any_cons, rank_or]
    rcases List.mem_cons.mp h with rfl | h
    · exact Nat.le_max_left _ _
    · exact Nat.le_trans (ih h) (Nat.le_max_right _ _)

/-- A conjunction is the least of its parts. -/
theorem isLeast_all {ts : List Truth} (h : ts ≠ []) : IsLeast {n | ∃ t ∈ ts, rank t = n} (rank (all ts)) := by
  have hmem : all ts ∈ ts := by
    rw [all_eq_foldr]
    exact foldr_mem and_eq_or and_true h
  refine ⟨⟨all ts, hmem, rfl⟩, ?_⟩
  rintro n ⟨t, ht, rfl⟩
  exact rank_all_le ht

/-- A disjunction is the greatest of its parts. -/
theorem isGreatest_any {ts : List Truth} (h : ts ≠ []) :
    IsGreatest {n | ∃ t ∈ ts, rank t = n} (rank (any ts)) := by
  have hmem : any ts ∈ ts := by
    rw [any_eq_foldr]
    exact foldr_mem or_eq_or or_false h
  refine ⟨⟨any ts, hmem, rfl⟩, ?_⟩
  rintro n ⟨t, ht, rfl⟩
  exact le_rank_any ht

/-- An exclusive disjunction is unknown as soon as a part is, and otherwise tells whether the number of true parts is
odd. -/
theorem parity_eq (ts : List Truth) :
    parity ts = if none ∈ ts then none else some (decide (Odd (ts.count (some true)))) := by
  induction ts with
  | nil => simp [parity, parityFrom]
  | cons t rest ih =>
    rw [parity_cons, ih]
    by_cases hrest : none ∈ rest
    · rcases t with _ | _ | _ <;> simp [hrest, xor]
    · rcases t with _ | _ | _
      · simp [xor]
      · simp [hrest, xor]
      · simp [hrest, xor, Nat.odd_add_one, -Nat.not_odd_iff_even]

/-! ## 3. Parts in another order -/

variable {ts us : List Truth}

theorem all_of_perm (h : ts.Perm us) : all ts = all us := by
  by_cases hts : ts = []
  · subst hts
    rw [h.nil_eq]
  · have hus : us ≠ [] := fun hnil => hts (hnil ▸ h).eq_nil
    have hleast := isLeast_all hts
    simp only [h.mem_iff] at hleast
    exact rank_injective (hleast.unique (isLeast_all hus))

theorem any_of_perm (h : ts.Perm us) : any ts = any us := by
  by_cases hts : ts = []
  · subst hts
    rw [h.nil_eq]
  · have hus : us ≠ [] := fun hnil => hts (hnil ▸ h).eq_nil
    have hgreatest := isGreatest_any hts
    simp only [h.mem_iff] at hgreatest
    exact rank_injective (hgreatest.unique (isGreatest_any hus))

theorem parity_of_perm (h : ts.Perm us) : parity ts = parity us := by
  rw [parity_eq, parity_eq, h.count_eq]
  simp only [h.mem_iff]

/-! ## 4. Answers that become known -/

def Keeps (t u : Truth) : Prop :=
  ∀ b, t = some b → u = some b

namespace Keeps

variable {a b c d : Truth}

theorem refl (t : Truth) : Keeps t t :=
  fun _ h => h

theorem eq_or (h : Keeps a b) : a = none ∨ a = b := by
  cases a with
  | none => exact Or.inl rfl
  | some x => exact Or.inr (h x rfl).symm

theorem and (h : Keeps a b) (h' : Keeps c d) : Keeps (Truth.and a c) (Truth.and b d) := by
  rcases h.eq_or with rfl | rfl <;> rcases h'.eq_or with rfl | rfl
  · intro x hx
    cases hx
  -- only a false part decides alone
  · intro x hx
    rcases c with _ | _ | _ <;> rcases b with _ | _ | _ <;> first | exact hx | cases hx
  · intro x hx
    rcases a with _ | _ | _ <;> rcases d with _ | _ | _ <;> first | exact hx | cases hx
  · exact refl _

theorem not (h : Keeps a b) : Keeps a.not b.not := by
  rcases h.eq_or with rfl | rfl
  · intro x hx
    cases hx
  · exact refl _

/-- A disjunction fails where the opposites of both parts hold. -/
theorem or (h : Keeps a b) (h' : Keeps c d) : Keeps (Truth.or a c) (Truth.or b d) := by
  rw [or_eq_not_and, or_eq_not_and]
  exact (h.not.and h'.not).not

theorem xor (h : Keeps a b) (h' : Keeps c d) : Keeps (Truth.xor a c) (Truth.xor b d) := by
  rcases h.eq_or with rfl | rfl
  · intro x hx
    cases hx
  · rcases h'.eq_or with rfl | rfl
    · intro x hx
      cases a <;> cases hx
    · exact refl _

/-- A connective that keeps what is known of two parts keeps what is known of any number of them. -/
theorem foldr {f : Truth → Truth → Truth}
    (hf : ∀ {a b c d}, Keeps a b → Keeps c d → Keeps (f a c) (f b d)) (e : Truth)
    (h : List.Forall₂ Keeps ts us) : Keeps (ts.foldr f e) (us.foldr f e) := by
  induction h with
  | nil => exact refl e
  | cons hhead _ ih => exact hf hhead ih

end Keeps

end Scoring.Truth
