import Mathlib.Data.List.Nodup
import Mathlib.Data.List.Perm.Subperm
import Mathlib.Data.List.Sort
import Mathlib.Data.String.Basic
import Scoring.Table

/-!
# Table — what a table holds

The entries of a table stand under strictly ascending names, so a look-up finds exactly what is listed, and two
tables that know the same names list them alike. A table made from a list holds the last value that the list
gives each name; where the list names nothing twice, that is its only value.
-/

namespace Scoring

variable {α β : Type}

/-! ## 1. Strictly ascending names -/

/-- Strictly ascending lists with the same members are equal. -/
theorem eq_of_ascending_of_mem_iff {xs ys : List String} (hx : xs.Pairwise (· < ·))
    (hy : ys.Pairwise (· < ·)) (h : ∀ n, n ∈ xs ↔ n ∈ ys) : xs = ys := by
  exact hx.eq_of_mem_iff hy h

namespace Table

theorem lookup_eq_none_iff {name : String} {es : List (String × α)} :
    lookup name es = none ↔ name ∉ es.map Prod.fst := by
  induction es with
  | nil => simp [lookup]
  | cons e rest ih =>
    obtain ⟨n, v⟩ := e
    by_cases h : n = name
    · simp [lookup, h]
    · simp [lookup, h, Ne.symm h, ih]

theorem mem_of_lookup {name : String} {v : α} {es : List (String × α)} (h : lookup name es = some v) :
    (name, v) ∈ es := by
  induction es with
  | nil => simp [lookup] at h
  | cons e rest ih =>
    obtain ⟨n, w⟩ := e
    unfold lookup at h
    split at h
    · rename_i hn
      cases h
      exact hn ▸ List.mem_cons_self
    · exact List.mem_cons_of_mem _ (ih h)

theorem lookup_append (name : String) (es es' : List (String × α)) :
    lookup name (es ++ es') = (lookup name es).or (lookup name es') := by
  induction es with
  | nil => rfl
  | cons e rest ih =>
    obtain ⟨n, v⟩ := e
    rw [List.cons_append]
    simp only [lookup]
    split
    · rfl
    · exact ih

/-- Where no name is listed twice, a look-up finds exactly what is listed. -/
theorem lookup_eq_some_iff {es : List (String × α)} (hd : (es.map Prod.fst).Nodup) {name : String}
    {v : α} : lookup name es = some v ↔ (name, v) ∈ es := by
  refine ⟨mem_of_lookup, fun h => ?_⟩
  cases hw : lookup name es with
  | none => exact absurd (List.mem_map_of_mem h) (lookup_eq_none_iff.mp hw)
  | some w =>
    have hsame := List.inj_on_of_nodup_map hd (mem_of_lookup hw) h rfl
    simp only [Prod.mk.injEq, true_and] at hsame
    rw [hsame]

/-! ## 2. Look-up and listing -/

theorem names_pairwise (t : Table α) : t.names.Pairwise (· < ·) := t.ascending

theorem names_nodup (t : Table α) : t.names.Nodup := t.names_pairwise.nodup

theorem find?_eq_none_iff {t : Table α} {name : String} : t.find? name = none ↔ name ∉ t.names :=
  lookup_eq_none_iff

/-- A look-up finds exactly what is listed. -/
theorem find?_eq_some_iff {t : Table α} {name : String} {v : α} :
    t.find? name = some v ↔ (name, v) ∈ t.entries :=
  lookup_eq_some_iff t.names_nodup

theorem contains_iff_mem_names {t : Table α} {name : String} :
    t.contains name = true ↔ name ∈ t.names := by
  unfold contains
  rw [← not_iff_not, ← find?_eq_none_iff]
  cases t.find? name <;> simp

/-- Tables that know the same names list them alike. -/
theorem names_eq_of_contains_iff {t : Table α} {u : Table β}
    (h : ∀ n, t.contains n = u.contains n) : t.names = u.names := by
  apply eq_of_ascending_of_mem_iff t.names_pairwise u.names_pairwise
  intro n
  rw [← contains_iff_mem_names, ← contains_iff_mem_names, h]

/-- Tables that answer every look-up alike are the same table. -/
theorem ext_find? {t u : Table α} (h : ∀ n, t.find? n = u.find? n) : t = u := by
  have hentries : t.entries = u.entries := by
    refine (List.pairwise_map.mp t.ascending).eq_of_mem_iff (List.pairwise_map.mp u.ascending) ?_
    rintro ⟨n, v⟩
    rw [← find?_eq_some_iff, ← find?_eq_some_iff, h]
  cases t
  cases u
  simp only at hentries
  subst hentries
  rfl

theorem length_names (t : Table α) : t.names.length = t.size := by
  simp [names, size]

/-- A list of the names of a table is as long as the table when it lists none of them twice. -/
theorem length_eq_size_iff {t : Table α} {ns : List String} (h : ∀ n, n ∈ t.names ↔ n ∈ ns) :
    ns.length = t.size ↔ ns.Nodup := by
  rw [← length_names]
  constructor
  · intro hlength
    have hsub : t.names.Subperm ns := List.subperm_of_subset t.names_nodup fun n hn => (h n).mp hn
    have hperm : t.names.Perm ns := hsub.perm_of_length_le hlength.le
    exact hperm.nodup_iff.mp t.names_nodup
  · intro hd
    exact ((List.perm_ext_iff_of_nodup hd t.names_nodup).mpr fun n => (h n).symm).length_eq

/-! ## 3. Making tables -/

theorem mem_names_alter {t : Table α} {name n : String} {f : Option α → α} :
    n ∈ (t.alter name f).names ↔ n = name ∨ n ∈ t.names :=
  mem_names_place

theorem mem_names_insert {t : Table α} {name n : String} {v : α} :
    n ∈ (t.insert name v).names ↔ n = name ∨ n ∈ t.names :=
  mem_names_alter

theorem find?_insert (t : Table α) (name n : String) (v : α) :
    (t.insert name v).find? n = if n = name then some v else t.find? n := by
  split
  · rename_i h
    rw [h, find?_insert_self]
  · rename_i h
    exact find?_insert_of_ne t v h

/-- Values of different names may be put in either way round. -/
theorem insert_comm (t : Table α) {m n : String} (v w : α) (h : m ≠ n) :
    (t.insert m v).insert n w = (t.insert n w).insert m v := by
  apply ext_find?
  intro k
  simp only [find?_insert]
  by_cases hm : k = m
  · subst hm
    simp [h]
  · simp [hm]

/-- Inserting the entries of a list adds their names. -/
theorem mem_names_foldl_insert {es : List (String × α)} {t : Table α} {n : String} :
    n ∈ (es.foldl (fun t e => t.insert e.1 e.2) t).names ↔ n ∈ es.map Prod.fst ∨ n ∈ t.names := by
  induction es generalizing t with
  | nil => simp
  | cons e rest ih =>
    rw [List.foldl_cons, ih, mem_names_insert, List.map_cons, List.mem_cons]
    tauto

theorem mem_names_ofList {es : List (String × α)} {n : String} :
    n ∈ (ofList es).names ↔ n ∈ es.map Prod.fst := by
  unfold ofList
  rw [mem_names_foldl_insert]
  simp [empty, names]

theorem mem_ofNames {ns : List String} {n : String} : n ∈ (ofNames ns).names ↔ n ∈ ns := by
  unfold ofNames
  rw [mem_names_ofList]
  simp

/-- Inserting names one after the other adds them. -/
theorem mem_names_foldl_insert_unit {ns : List String} {t : Table Unit} {n : String} :
    n ∈ (ns.foldl (fun t name => t.insert name ()) t).names ↔ n ∈ ns ∨ n ∈ t.names := by
  have h := @mem_names_foldl_insert Unit (ns.map fun name => (name, ())) t n
  rw [List.foldl_map, List.map_map] at h
  simpa using h

/-- Inserting entries: a look-up finds the last entry of the list, else what was there before. -/
theorem find?_foldl_insert_reverse (es : List (String × α)) (t : Table α) (n : String) :
    (es.foldl (fun t e => t.insert e.1 e.2) t).find? n = (lookup n es.reverse).or (t.find? n) := by
  induction es generalizing t with
  | nil => rfl
  | cons e rest ih =>
    obtain ⟨m, v⟩ := e
    rw [List.foldl_cons, ih, find?_insert, List.reverse_cons, lookup_append, Option.or_assoc]
    by_cases h : m = n
    · subst h
      simp [lookup]
    · simp [lookup, h, Ne.symm h]

/-- Inserting entries of distinct names: a look-up finds the entry of the list, else what was there before. -/
theorem find?_foldl_insert {es : List (String × α)} (hd : (es.map Prod.fst).Nodup) (t : Table α)
    (n : String) :
    (es.foldl (fun t e => t.insert e.1 e.2) t).find? n = (lookup n es).or (t.find? n) := by
  have hd' : (es.reverse.map Prod.fst).Nodup := by rwa [List.map_reverse, List.nodup_reverse]
  have hreverse : lookup n es.reverse = lookup n es := by
    apply Option.ext
    intro v
    rw [lookup_eq_some_iff hd', lookup_eq_some_iff hd, List.mem_reverse]
  rw [find?_foldl_insert_reverse, hreverse]

/-- A table made from entries of distinct names answers as the list does. -/
theorem find?_ofList {es : List (String × α)} (hd : (es.map Prod.fst).Nodup) (n : String) :
    (ofList es).find? n = lookup n es := by
  unfold ofList
  rw [find?_foldl_insert hd, find?_empty, Option.or_none]

theorem size_ofList_eq_iff {es : List (String × α)} :
    (ofList es).size = es.length ↔ (es.map Prod.fst).Nodup := by
  have hnames : ∀ n, n ∈ (ofList es).names ↔ n ∈ es.map Prod.fst := fun n => mem_names_ofList
  rw [← length_eq_size_iff hnames, List.length_map, eq_comm]

/-- The last value that a list gives a name is the one that the table holds. -/
theorem find?_ofList_last {before after : List (String × α)} {n : String} {v : α}
    (h : n ∉ after.map Prod.fst) : (ofList (before ++ (n, v) :: after)).find? n = some v := by
  have hafter : lookup n after.reverse = none := lookup_eq_none_iff.mpr (by simpa using h)
  unfold ofList
  rw [find?_foldl_insert_reverse, List.reverse_append, List.reverse_cons, List.append_assoc, lookup_append, hafter]
  simp [lookup]

/-- Entries of distinct names make the same table in any order. -/
theorem ofList_eq_of_perm {es es' : List (String × α)} (h : es.Perm es') (hd : (es.map Prod.fst).Nodup) :
    ofList es = ofList es' := by
  have hd' : (es'.map Prod.fst).Nodup := (h.map Prod.fst).nodup_iff.mp hd
  apply ext_find?
  intro n
  rw [find?_ofList hd, find?_ofList hd']
  apply Option.ext
  intro v
  rw [lookup_eq_some_iff hd, lookup_eq_some_iff hd', h.mem_iff]

/-- What is found in a table made from a list was in the list. -/
theorem mem_of_find?_ofList {es : List (String × α)} {n : String} {v : α}
    (h : (ofList es).find? n = some v) : (n, v) ∈ es := by
  unfold ofList at h
  rw [find?_foldl_insert_reverse, find?_empty, Option.or_none] at h
  exact List.mem_reverse.mp (mem_of_lookup h)

end Table

end Scoring
