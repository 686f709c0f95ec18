/-!
# Table — values under names, in ascending order of names

A table holds each name at most once and lists its entries by name, so two tables with the same values under
the same names are the same table. `find?` is its view: every operation is described by what `find?` answers
afterwards.
-/

namespace Scoring

variable {α β : Type}

def Ascending (entries : List (String × α)) : Prop :=
  (entries.map Prod.fst).Pairwise (· < ·)

namespace Ascending

theorem tail {e : String × α} {es : List (String × α)} (h : Ascending (e :: es)) : Ascending es :=
  (List.pairwise_cons.1 h).2

theorem head_lt {e : String × α} {es : List (String × α)} (h : Ascending (e :: es)) :
    ∀ n ∈ es.map Prod.fst, e.1 < n :=
  (List.pairwise_cons.1 h).1

end Ascending

/-- Values under names; the entries ascend strictly. -/
structure Table (α : Type) where
  entries : List (String × α)
  ascending : Ascending entries

namespace Table

/-- The value under a name in a list of entries, the first one when there are several. -/
def lookup (name : String) : List (String × α) → Option α
  | [] => none
  | (n, v) :: rest => if n = name then some v else lookup name rest

/-- The entries with `f` of the old value put under a name. -/
def place (name : String) (f : Option α → α) : List (String × α) → List (String × α)
  | [] => [(name, f none)]
  | (n, v) :: rest =>
    if n = name then (name, f (some v)) :: rest
    else if name < n then (name, f none) :: (n, v) :: rest
    else (n, v) :: place name f rest

theorem mem_names_place {name : String} {f : Option α → α} {es : List (String × α)} {n : String} :
    n ∈ (place name f es).map Prod.fst ↔ n = name ∨ n ∈ es.map Prod.fst := by
  induction es with
  | nil => simp [place]
  | cons e rest ih =>
    obtain ⟨m, v⟩ := e
    simp only [place]
    split
    -- found, met too early, further down
    · rename_i h; subst h; simp
    · split
      · simp
      · simp only [List.map_cons, List.mem_cons, ih]; exact or_left_comm

theorem ascending_place (name : String) (f : Option α → α) {es : List (String × α)} (h : Ascending es) :
    Ascending (place name f es) := by
  induction es with
  | nil => simp [place, Ascending]
  | cons e rest ih =>
    obtain ⟨m, v⟩ := e
    have hd := h.head_lt
    simp only [place]
    split
    · rename_i hm; subst hm; exact h
    · split
      · rename_i hlt
        -- the new name comes before all the others
        refine List.pairwise_cons.2 ⟨fun n hn => ?_, h⟩
        rcases List.mem_cons.1 hn with rfl | hn
        · exact hlt
        · exact String.lt_trans hlt (hd n hn)
      -- the new name goes further down, behind the first one
      · refine List.pairwise_cons.2 ⟨fun n hn => ?_, ih h.tail⟩
        rcases mem_names_place.1 hn with rfl | hn
        · grind
        · exact hd n hn

theorem lookup_place_self (name : String) (f : Option α → α) {es : List (String × α)}
    (h : Ascending es) : lookup name (place name f es) = some (f (lookup name es)) := by
  induction es with
  | nil => simp [place, lookup]
  | cons e rest ih =>
    obtain ⟨m, v⟩ := e
    simp only [place]
    split
    · rename_i hm; subst hm; simp [lookup]
    · rename_i hm
      split
      · rename_i hlt
        -- all names behind are greater still
        have absent : lookup name rest = none := by
          have hd := h.head_lt
          clear ih h
          induction rest with
          | nil => rfl
          | cons e rest ih =>
            obtain ⟨k, w⟩ := e
            have hk : m < k := hd k (by simp)
            have : k ≠ name := by grind
            simp only [lookup, this, if_false]
            exact ih fun n hn => hd n (by simp [hn])
        simp [lookup, hm, absent]
      · simp [lookup, hm, ih h.tail]

theorem lookup_place_of_ne {name other : String} (f : Option α → α) (es : List (String × α))
    (h : other ≠ name) : lookup other (place name f es) = lookup other es := by
  induction es with
  | nil => simp [place, lookup, Ne.symm h]
  | cons e rest ih =>
    obtain ⟨m, v⟩ := e
    simp only [place]
    split
    · rename_i hm; subst hm; simp [lookup, Ne.symm h]
    · split
      · simp [lookup, Ne.symm h]
      · simp [lookup, ih]

/-! ## Tables -/

/-- The table without entries. -/
def empty : Table α := ⟨[], List.Pairwise.nil⟩

instance : Inhabited (Table α) := ⟨empty⟩

def find? (t : Table α) (name : String) : Option α :=
  lookup name t.entries

/-- Put `f` of the old value under a name. -/
def alter (t : Table α) (name : String) (f : Option α → α) : Table α :=
  ⟨place name f t.entries, ascending_place name f t.ascending⟩

/-- Put a value under a name, in place of any other. -/
def insert (t : Table α) (name : String) (value : α) : Table α :=
  t.alter name fun _ => value

def erase (t : Table α) (name : String) : Table α :=
  ⟨t.entries.filter fun e => e.1 ≠ name, by
    have h := t.ascending
    unfold Ascending at h ⊢
    rw [List.pairwise_map] at h ⊢
    exact h.filter _⟩

/-- The names, ascending. -/
def names (t : Table α) : List String :=
  t.entries.map Prod.fst

def values (t : Table α) : List α :=
  t.entries.map Prod.snd

def size (t : Table α) : Nat :=
  t.entries.length

def isEmpty (t : Table α) : Bool :=
  t.entries.isEmpty

def contains (t : Table α) (name : String) : Bool :=
  (t.find? name).isSome

/-- The same names with `f` of the values. -/
def map (f : α → β) (t : Table α) : Table β :=
  ⟨t.entries.map fun e => (e.1, f e.2), by
    have h := t.ascending
    unfold Ascending at h ⊢
    simpa [Function.comp_def] using h⟩

/-- The entries of a list, a later one replacing an earlier one of the same name. -/
def ofList (es : List (String × α)) : Table α :=
  es.foldl (fun t e => t.insert e.1 e.2) empty

/-- The names of a list, each once. -/
def ofNames (ns : List String) : Table Unit :=
  ofList (ns.map fun n => (n, ()))

@[simp] theorem find?_empty (name : String) : (empty : Table α).find? name = none := rfl

@[simp] theorem find?_alter_self (t : Table α) (name : String) (f : Option α → α) :
    (t.alter name f).find? name = some (f (t.find? name)) :=
  lookup_place_self name f t.ascending

theorem find?_alter_of_ne (t : Table α) {name other : String} (f : Option α → α) (h : other ≠ name) :
    (t.alter name f).find? other = t.find? other :=
  lookup_place_of_ne f t.entries h

@[simp] theorem find?_insert_self (t : Table α) (name : String) (value : α) :
    (t.insert name value).find? name = some value :=
  find?_alter_self t name _

theorem find?_insert_of_ne (t : Table α) {name other : String} (value : α) (h : other ≠ name) :
    (t.insert name value).find? other = t.find? other :=
  find?_alter_of_ne t _ h

@[simp] theorem find?_erase_self (t : Table α) (name : String) : (t.erase name).find? name = none := by
  unfold erase find?
  simp only
  induction t.entries with
  | nil => rfl
  | cons e rest ih =>
    by_cases h : e.1 = name
    · simpa [h] using ih
    · simpa [h, lookup] using ih

theorem find?_erase_of_ne (t : Table α) {name other : String} (h : other ≠ name) :
    (t.erase name).find? other = t.find? other := by
  unfold erase find?
  simp only
  induction t.entries with
  | nil => rfl
  | cons e rest ih =>
    by_cases he : e.1 = name
    · simpa [he, lookup, Ne.symm h] using ih
    -- the entry that is looked for stays where it is
    · by_cases ho : e.1 = other
      · simp [h, ho, lookup]
      · simpa [he, ho, lookup] using ih

end Table

end Scoring
