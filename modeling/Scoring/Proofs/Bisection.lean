import Mathlib.Data.List.Nodup
import Mathlib.Order.Lattice

/-!
# Bisection — looking a key up in a row of ascending keys

`bisect` looks at the key in the middle of a window and goes on in the half that can hold the key it is looking for. Its
reads lie within the row by construction. In a row that ascends strictly it finds exactly the place of a key
(`bisect_eq_some_iff`), so entries under ascending keys can be looked up by halving (`bisect_entries_eq_some_iff`).
-/

namespace Scoring

variable {α β : Type} [LinearOrder α]

/-- The place of a key in the window of a row from `low` up to, but not including, `high`. -/
def bisectFrom (keys : List α) (key : α) (low high : Nat) (h : high ≤ keys.length) : Option Nat :=
  if hwindow : low < high then
    let middle := low + (high - low) / 2
    have hmiddle : middle < keys.length := by omega
    if keys[middle] < key then bisectFrom keys key (middle + 1) high h
    else if key < keys[middle] then bisectFrom keys key low middle (Nat.le_of_lt hmiddle)
    else some middle
  else none
termination_by high - low

def bisect (keys : List α) (key : α) : Option Nat :=
  bisectFrom keys key 0 keys.length (Nat.le_refl _)

variable {keys : List α} {key : α} {low high place : Nat} {h : high ≤ keys.length}

/-- What is found is the key, also in a row without an order. -/
theorem getElem?_of_bisectFrom (hfound : bisectFrom keys key low high h = some place) :
    keys[place]? = some key := by
  fun_induction bisectFrom keys key low high h with
  | case1 low high h hwindow middle hmiddle hbelow ih => exact ih hfound
  | case2 low high h hwindow middle hmiddle hbelow habove ih => exact ih hfound
  | case3 low high h hwindow middle hmiddle hbelow habove =>
    obtain rfl : middle = place := Option.some.inj hfound
    have hkey : keys[middle] = key := le_antisymm (not_lt.mp habove) (not_lt.mp hbelow)
    rw [List.getElem?_eq_getElem hmiddle, hkey]
  | case4 => cases hfound

/-- In a row that ascends strictly, a key within the window is found. -/
theorem bisectFrom_eq_some (hkeys : keys.Pairwise (· < ·)) (hplace : keys[place]? = some key)
    (hlow : low ≤ place) (hhigh : place < high) : bisectFrom keys key low high h = some place := by
  obtain ⟨hlength, hkey⟩ := List.getElem?_eq_some_iff.mp hplace
  have hordered := List.pairwise_iff_getElem.mp hkeys
  fun_induction bisectFrom keys key low high h with
  | case1 low high h hwindow middle hmiddle hbelow ih =>
    -- keys up to the middle are too small
    refine ih ?_ hhigh
    by_contra hleft
    rcases Nat.lt_or_eq_of_le (show place ≤ middle by omega) with hlt | heq
    · exact lt_asymm hbelow (hkey ▸ hordered _ _ hlength hmiddle hlt)
    · subst heq
      exact hbelow.ne hkey
  | case2 low high h hwindow middle hmiddle hbelow habove ih =>
    -- keys from the middle on are too great
    refine ih hlow ?_
    by_contra hright
    rcases Nat.lt_or_eq_of_le (show middle ≤ place by omega) with hlt | heq
    · exact lt_asymm habove (hkey ▸ hordered _ _ hmiddle hlength hlt)
    · subst heq
      exact habove.ne hkey.symm
  | case3 low high h hwindow middle hmiddle hbelow habove =>
    have hmiddleKey : keys[middle] = key := le_antisymm (not_lt.mp habove) (not_lt.mp hbelow)
    have hnodup : keys.Nodup := hkeys.nodup
    rw [Option.some.injEq]
    exact (hnodup.getElem_inj_iff).mp (hmiddleKey.trans hkey.symm)
  | case4 => omega

theorem bisect_eq_some_iff (hkeys : keys.Pairwise (· < ·)) :
    bisect keys key = some place ↔ keys[place]? = some key := by
  unfold bisect
  refine ⟨getElem?_of_bisectFrom, fun hplace => ?_⟩
  exact bisectFrom_eq_some hkeys hplace (Nat.zero_le _) (List.getElem?_eq_some_iff.mp hplace).1

/-- Looking up entries under ascending keys by halving finds exactly the entries. -/
theorem bisect_entries_eq_some_iff {entries : List (α × β)}
    (hkeys : (entries.map Prod.fst).Pairwise (· < ·)) {value : β} :
    (bisect (entries.map Prod.fst) key).bind ((entries.map Prod.snd)[·]?) = some value ↔
      (key, value) ∈ entries := by
  rw [Option.bind_eq_some_iff]
  simp only [bisect_eq_some_iff hkeys, List.getElem?_map, Option.map_eq_some_iff]
  rw [List.mem_iff_getElem?]
  constructor
  · rintro ⟨place, ⟨⟨key', value'⟩, hentry, rfl⟩, entry, hsame, rfl⟩
    rw [hentry, Option.some.injEq] at hsame
    exact ⟨place, hsame ▸ hentry⟩
  · rintro ⟨place, hentry⟩
    exact ⟨place, ⟨_, hentry, rfl⟩, _, hentry, rfl⟩

end Scoring
