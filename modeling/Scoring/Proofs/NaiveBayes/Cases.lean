import Scoring.Proofs.NaiveBayes

/-!
# Cases — the counts behind a naive Bayes model

An input counts how often each class was seen together with each of its values. `BayesInput.cases` reads the count of a
key and a class off the description, entry by entry; compiling merges the entries into a table with one row for each
key, and the row has these counts at the places of the classes.
-/

namespace Scoring

open Spec (BayesInput ClassCount ClassDistribution PairCounts)

/-! ## 1. Cases of a description -/

def Field.keyOf (f : Field) (category : String) : String :=
  (Scalar.string category).key f.dataType

def Spec.PairCounts.countsOf (p : PairCounts) (c : String) : List Float :=
  (p.counts.filter (·.value == c)).map (·.count)

def Spec.ClassDistribution.normalOf? (s : ClassDistribution) (c : String) : Option (Float × Float) :=
  match s.distribution with
  | .gaussian mean variance => if s.value = c then some (mean, variance) else none
  | _ => none

namespace Spec.BayesInput

/-- How often a class was seen together with a key: the counts of all entries whose value has the key, added in
declaration order. -/
def cases (b : BayesInput) (key : String → String) (k c : String) : Float :=
  ((b.pairCounts.filter fun p => key p.value == k).flatMap (·.countsOf c)).foldl (· + ·) 0.0

def countedKeys (b : BayesInput) (key : String → String) : List String :=
  (Table.ofNames (b.pairCounts.map fun p => key p.value)).names

/-- How often a class was seen together with any key, added in ascending order of keys. -/
def allCases (b : BayesInput) (key : String → String) (c : String) : Float :=
  ((b.countedKeys key).map fun k => b.cases key k c).foldl (· + ·) 0.0

/-- The share of a key among the cases of a class, zero where there are none. -/
def share (b : BayesInput) (key : String → String) (k c : String) : Float :=
  if b.allCases key c > 0.0 then b.cases key k c / b.allCases key c else 0.0

/-- Mean and variance within a class: the last ones that are listed for it. -/
def normal? (b : BayesInput) (c : String) : Option (Float × Float) :=
  (b.statistics.filterMap (·.normalOf? c)).getLast?

end Spec.BayesInput

namespace NaiveBayes

/-! ## 2. Rows with a number for each class -/

variable {classes : List String} {input : String}

theorem placeOf_eq_ok {value : String} {k : Nat} (h : placeOf classes input value = .ok k) :
    classes[k]? = some value := by
  unfold placeOf at h
  split at h
  · rename_i i hi
    cases h
    obtain ⟨hlt, hget, -⟩ := List.idxOf?_eq_some_iff.mp hi
    rw [List.getElem?_eq_getElem hlt, hget]
  · cases h

/-- Changing the place of a class changes the number of that class and of no other. -/
theorem modify_row {α : Type} (hclasses : classes.Nodup) {value : String} {k : Nat}
    (hk : classes[k]? = some value) (f : α → α) (g : String → α) :
    (classes.map g).modify k f = classes.map fun c => if c = value then f (g c) else g c := by
  apply List.ext_getElem?
  intro j
  rw [List.getElem?_modify, List.getElem?_map, List.getElem?_map]
  cases hj : classes[j]? with
  | none => simp
  | some c =>
    have hiff : k = j ↔ c = value := by
      constructor
      · rintro rfl
        exact Option.some.inj (hj.symm.trans hk)
      · rintro rfl
        have hlt := (List.getElem?_eq_some_iff.mp hk).1
        exact (List.getElem?_inj hlt hclasses).mp (hk.trans hj.symm)
    by_cases hkj : k = j
    · simp [hkj, hiff.mp hkj]
    · simp [hkj, mt hiff.mpr hkj]

theorem foldlM_addCount (hclasses : classes.Nodup) {cs : List ClassCount} {g : String → Float}
    {row : List Float} (h : cs.foldlM (addCount classes input) (classes.map g) = .ok row) :
    row = classes.map fun c => ((cs.filter (·.value == c)).map (·.count)).foldl (· + ·) (g c) := by
  induction cs generalizing g with
  | nil =>
    cases h
    rfl
  | cons c rest ih =>
    rw [List.foldlM_cons, Outcome.bind_eq_ok] at h
    obtain ⟨row', hstep, hrest⟩ := h
    unfold addCount at hstep
    rw [Outcome.bind_eq_ok] at hstep
    obtain ⟨k, hk, hrow⟩ := hstep
    cases hrow
    rw [modify_row hclasses (placeOf_eq_ok hk)] at hrest
    rw [ih hrest]
    refine List.map_congr_left fun x _ => ?_
    by_cases hx : x = c.value
    · simp [hx]
    · simp [hx, Ne.symm hx]

/-! ## 3. Tables of counts -/

/-- A table holds `g` of each key and class; a key that it does not list stands for zeros. -/
def Tallies (classes : List String) (t : Table (List Float)) (g : String → String → Float) : Prop :=
  ∀ k, (t.find? k).getD (classes.map fun _ => 0.0) = classes.map (g k)

theorem tallies_of_addPair (hclasses : classes.Nodup) {key : String → String} {p : PairCounts}
    {t t' : Table (List Float)} {g : String → String → Float} (ht : Tallies classes t g)
    (h : addPair classes input key t p = .ok t') :
    Tallies classes t' (fun k c => if key p.value = k then (p.countsOf c).foldl (· + ·) (g k c) else g k c) ∧
      ∀ n, n ∈ t'.names ↔ n = key p.value ∨ n ∈ t.names := by
  unfold addPair at h
  simp only [Outcome.bind_eq_ok] at h
  obtain ⟨row, hrow, hinsert⟩ := h
  cases hinsert
  rw [ht] at hrow
  refine ⟨fun k => ?_, fun n => Table.mem_names_insert⟩
  rw [Table.find?_insert]
  by_cases hk : k = key p.value
  · subst hk
    simp only [if_true, Option.getD_some]
    exact foldlM_addCount hclasses hrow
  · simp only [hk, Ne.symm hk, if_false]
    exact ht k

/-- Counting along a list adds up what its entries say of each key and class. -/
theorem tallies_of_foldlM (hclasses : classes.Nodup) {key : String → String} {ps : List PairCounts}
    {t t' : Table (List Float)} {g : String → String → Float} (ht : Tallies classes t g)
    (h : ps.foldlM (addPair classes input key) t = .ok t') :
    Tallies classes t' (fun k c =>
        ((ps.filter fun p => key p.value == k).flatMap (·.countsOf c)).foldl (· + ·) (g k c)) ∧
      ∀ n, n ∈ t'.names ↔ n ∈ ps.map (fun p => key p.value) ∨ n ∈ t.names := by
  induction ps generalizing t g with
  | nil =>
    cases h
    exact ⟨ht, fun n => by simp⟩
  | cons p rest ih =>
    rw [List.foldlM_cons, Outcome.bind_eq_ok] at h
    obtain ⟨t₁, hstep, hrest⟩ := h
    obtain ⟨ht₁, hnames₁⟩ := tallies_of_addPair hclasses ht hstep
    obtain ⟨ht', hnames'⟩ := ih ht₁ hrest
    refine ⟨fun k => ?_, fun n => ?_⟩
    · rw [ht' k]
      refine List.map_congr_left fun c _ => ?_
      by_cases hk : key p.value = k
      · simp [hk, List.foldl_append]
      · simp [hk]
    · rw [hnames', hnames₁, List.map_cons, List.mem_cons]
      tauto

theorem tallies_cases (hclasses : classes.Nodup) {b : BayesInput} {key : String → String}
    {counts : Table (List Float)}
    (h : b.pairCounts.foldlM (addPair classes input key) Table.empty = .ok counts) :
    Tallies classes counts (b.cases key) ∧ counts.names = b.countedKeys key := by
  obtain ⟨htallies, hnames⟩ := tallies_of_foldlM (g := fun _ _ => 0.0) hclasses (fun _ => rfl) h
  refine ⟨htallies, ?_⟩
  apply eq_of_ascending_of_mem_iff counts.names_pairwise (Table.names_pairwise _)
  intro n
  rw [hnames, Table.mem_ofNames]
  simp [Table.empty, Table.names]

theorem foldl_zipWith_add {α : Type} (xs : List String) (ks : List α) (g : α → String → Float)
    (start : String → Float) :
    (ks.map fun k => xs.map (g k)).foldl (List.zipWith (· + ·)) (xs.map start) =
      xs.map fun c => (ks.map fun k => g k c).foldl (· + ·) (start c) := by
  induction ks generalizing start with
  | nil => rfl
  | cons k rest ih =>
    have hstep : List.zipWith (· + ·) (xs.map start) (xs.map (g k)) = xs.map fun c => start c + g k c := by
      rw [List.zipWith_map, List.zipWith_self]
    rw [List.map_cons, List.foldl_cons, hstep, ih]
    rfl

/-- The totals of a table are those of its keys in ascending order. -/
theorem totals_of_tallies {t : Table (List Float)} {g : String → String → Float}
    (ht : Tallies classes t g) :
    t.values.foldl (List.zipWith (· + ·)) (classes.map fun _ => 0.0) =
      classes.map fun c => (t.names.map fun k => g k c).foldl (· + ·) 0.0 := by
  have hvalues : t.values = t.names.map fun k => classes.map (g k) := by
    unfold Table.values Table.names
    rw [List.map_map]
    refine List.map_congr_left fun e he => ?_
    have hrow := ht e.1
    rw [Table.find?_eq_some_iff.mpr he, Option.getD_some] at hrow
    exact hrow
  rw [hvalues]
  exact foldl_zipWith_add classes t.names g fun _ => 0.0

theorem logProbabilities_eq {threshold : Float} {row : Option (List Float)} {n : String → Float}
    (hrow : row.getD (classes.map fun _ => 0.0) = classes.map n) (total : String → Float) :
    logProbabilities threshold (classes.map total) row = classes.map fun c =>
      Float.log (floored threshold (if total c > 0.0 then n c / total c else 0.0)) := by
  unfold logProbabilities
  apply List.ext_getElem?
  intro j
  rw [List.getElem?_map, List.getElem?_zipIdx, List.getElem?_map, List.getElem?_map]
  cases hj : classes[j]? with
  | none => rfl
  | some c =>
    -- the number at the place of a class is that of the class, also where no row is listed
    have hcount : (row.bind (·[j]?)).getD 0.0 = n c := by
      have hget := congrArg (·[j]?) hrow
      simp only [List.getElem?_map, hj, Option.map_some] at hget
      cases row with
      | none =>
        rw [Option.getD_none, List.getElem?_map, hj] at hget
        exact Option.some.inj hget
      | some r =>
        simp only [Option.getD_some] at hget
        simp [hget]
    simp [hcount]

/-! ## 4. Normal distributions -/

/-- A list with an item for each item of another is made from it by a function. -/
theorem exists_eq_map_of_map_some {α β : Type} [Inhabited β] {xs : List α} {ys : List β}
    {f : α → Option β} (h : ys.map some = xs.map f) :
    ∃ g, ys = xs.map g ∧ ∀ x ∈ xs, f x = some (g x) := by
  refine ⟨fun x => (f x).getD default, ?_, fun x hx => ?_⟩
  · have hmap := congrArg (List.map (·.getD default)) h
    simpa [List.map_map, Function.comp_def] using hmap
  · have hmem : f x ∈ ys.map some := by
      rw [h]
      exact List.mem_map_of_mem hx
    obtain ⟨y, -, hy⟩ := List.mem_map.mp hmem
    simp only [← hy, Option.getD_some]

theorem foldlM_addStatistic (hclasses : classes.Nodup) {ss : List ClassDistribution}
    {g : String → Option (Float × Float)} {row : List (Option (Float × Float))}
    (h : ss.foldlM (addStatistic classes input) (classes.map g) = .ok row) :
    row = classes.map fun c => (ss.filterMap (·.normalOf? c)).getLast?.or (g c) := by
  induction ss generalizing g with
  | nil =>
    cases h
    rfl
  | cons s rest ih =>
    rw [List.foldlM_cons, Outcome.bind_eq_ok] at h
    obtain ⟨row', hstep, hrest⟩ := h
    unfold addStatistic at hstep
    rw [Outcome.bind_eq_ok] at hstep
    obtain ⟨k, hk, hrow⟩ := hstep
    split at hrow
    · rename_i mean variance hs
      split at hrow
      · cases hrow
      · cases hrow
        rw [List.set_eq_modify, modify_row hclasses (placeOf_eq_ok hk)] at hrest
        rw [ih hrest]
        refine List.map_congr_left fun c _ => ?_
        by_cases hc : c = s.value
        -- what is listed behind counts before this distribution
        · have hnormal : s.normalOf? c = some (mean, variance) := by
            unfold Spec.ClassDistribution.normalOf?
            rw [hs]
            exact if_pos hc.symm
          have hcons : (s :: rest).filterMap (·.normalOf? c) =
              (mean, variance) :: rest.filterMap (·.normalOf? c) := List.filterMap_cons_some hnormal
          rw [hcons, List.getLast?_cons, if_pos hc]
          cases (rest.filterMap (·.normalOf? c)).getLast? <;> rfl
        · have hnormal : s.normalOf? c = none := by
            unfold Spec.ClassDistribution.normalOf?
            rw [hs]
            exact if_neg (Ne.symm hc)
          have hcons : (s :: rest).filterMap (·.normalOf? c) = rest.filterMap (·.normalOf? c) :=
            List.filterMap_cons_none hnormal
          rw [hcons, if_neg hc]
    · cases hrow

end NaiveBayes

end Scoring
