import Scoring.Json.Shape
import Scoring.Proofs.Table

/-!
# Shape — what is read back of a value

A reader asks for the parts of a value by name. Where the names of an object differ, it gets what was written under
each, whatever else the object holds, so every piece that the readers are put together from undoes the piece that writes
the same part.
-/

namespace Scoring

/-! ## 1. Tables -/

/-- Entries that ascend are listed as they are by the table made from them. -/
theorem Table.entries_ofList {α : Type} {es : List (String × α)} (h : Ascending es) :
    (ofList es).entries = es := by
  have hnodup : (es.map Prod.fst).Nodup := List.Pairwise.imp (fun hlt => ne_of_lt hlt) h
  have hmem : ∀ e, e ∈ (ofList es).entries ↔ e ∈ es := by
    rintro ⟨n, v⟩
    rw [← find?_eq_some_iff, find?_ofList hnodup, lookup_eq_some_iff hnodup]
  exact (List.pairwise_map.mp (ofList es).ascending).eq_of_mem_iff (List.pairwise_map.mp h) hmem

/-! ## 2. Values as texts say them -/

namespace Json

theorem rawItems_eq (js : List Json) : rawItems js = js.map raw := by
  induction js with
  | nil => rfl
  | cons j rest ih => rw [rawItems, ih, List.map_cons]

theorem rawMembers_eq (ms : List (String × Json)) : rawMembers ms = ms.map fun m => (m.1, m.2.raw) := by
  induction ms with
  | nil => rfl
  | cons m rest ih => rw [rawMembers, ih, List.map_cons]

@[simp] theorem raw_string (s : String) : (string s).raw = .string s := rfl

@[simp] theorem raw_int (i : Int) : (int i).raw = .int i := rfl

theorem raw_array (js : List Json) : (array js).raw = .array (js.map raw) := by
  rw [raw, rawItems_eq]

theorem raw_object (ms : List (String × Json)) : (object ms).raw = .object (ms.map fun m => (m.1, m.2.raw)) := by
  rw [raw, rawMembers_eq]

/-- A finite number is written as it is. -/
theorem raw_ofFloat {x : Float} (h : x.isFinite = true) : (ofFloat x).raw = .float x := by
  unfold ofFloat
  rw [if_pos h]
  rfl

mutual

/-- The objects of a value, all the way down, list each name once and in ascending order. -/
def Ordered : Json → Prop
  | .array items => OrderedItems items
  | .object members => Ascending members ∧ OrderedMembers members
  | .null | .bool _ | .int _ | .float _ | .string _ => True

def OrderedItems : List Json → Prop
  | [] => True
  | j :: rest => j.Ordered ∧ OrderedItems rest

def OrderedMembers : List (String × Json) → Prop
  | [] => True
  | (_, j) :: rest => j.Ordered ∧ OrderedMembers rest

end

theorem orderedMembers_iff {ms : List (String × Json)} : OrderedMembers ms ↔ ∀ m ∈ ms, m.2.Ordered := by
  induction ms with
  | nil => simp [OrderedMembers]
  | cons m rest ih => rw [OrderedMembers, ih, List.forall_mem_cons]

mutual

/-- An ordered value is read back as it was. -/
theorem json?_raw {j : Json} (h : j.Ordered) : j.raw.json? = some j := by
  cases j with
  | null | bool | int | float | string => rfl
  | array items => rw [raw, Raw.json?, items?_rawItems h, Option.map_some]
  | object members =>
    rw [raw, Raw.json?, members?_rawMembers h.2, Option.map_some, Table.entries_ofList h.1]

theorem items?_rawItems {js : List Json} (h : OrderedItems js) : Raw.items? (rawItems js) = some js := by
  cases js with
  | nil => rfl
  | cons j rest =>
    rw [rawItems, Raw.items?, json?_raw h.1, items?_rawItems h.2]
    rfl

theorem members?_rawMembers {ms : List (String × Json)} (h : OrderedMembers ms) :
    Raw.members? (rawMembers ms) = some ms := by
  cases ms with
  | nil => rfl
  | cons m rest =>
    obtain ⟨name, j⟩ := m
    rw [rawMembers, Raw.members?, json?_raw h.1, members?_rawMembers h.2]
    rfl

end

mutual

/-- Whatever a value holds, all of it is usable. -/
theorem isSome_json?_raw (j : Json) : j.raw.json?.isSome = true := by
  cases j with
  | null | bool | int | float | string => rfl
  | array items => rw [raw, Raw.json?, Option.isSome_map, isSome_items?_rawItems items]
  | object members => rw [raw, Raw.json?, Option.isSome_map, isSome_members?_rawMembers members]

theorem isSome_items?_rawItems (js : List Json) : (Raw.items? (rawItems js)).isSome = true := by
  cases js with
  | nil => rfl
  | cons j rest =>
    obtain ⟨j', hj⟩ := Option.isSome_iff_exists.mp (isSome_json?_raw j)
    obtain ⟨js', hjs⟩ := Option.isSome_iff_exists.mp (isSome_items?_rawItems rest)
    rw [rawItems, Raw.items?, hj, hjs]
    rfl

theorem isSome_members?_rawMembers (ms : List (String × Json)) :
    (Raw.members? (rawMembers ms)).isSome = true := by
  cases ms with
  | nil => rfl
  | cons m rest =>
    obtain ⟨name, j⟩ := m
    obtain ⟨j', hj⟩ := Option.isSome_iff_exists.mp (isSome_json?_raw j)
    obtain ⟨ms', hms⟩ := Option.isSome_iff_exists.mp (isSome_members?_rawMembers rest)
    rw [rawMembers, Raw.members?, hj, hms]
    rfl

end

end Json

/-! ## 3. Values that texts say -/

namespace Raw

mutual

/-- Whatever a text says, its value is ordered. -/
theorem ordered_of_json? {r : Raw} {j : Json} (h : r.json? = some j) : j.Ordered := by
  cases r with
  | null | bool | int | float | string =>
    cases h
    trivial
  | array items =>
    rw [json?, Option.map_eq_some_iff] at h
    obtain ⟨js, hjs, rfl⟩ := h
    rw [Json.Ordered]
    exact orderedItems_of_items? hjs
  | object members =>
    rw [json?, Option.map_eq_some_iff] at h
    obtain ⟨ms, hms, rfl⟩ := h
    rw [Json.Ordered]
    refine ⟨(Table.ofList ms).ascending, Json.orderedMembers_iff.mpr fun m hm => ?_⟩
    -- a table made from a list holds nothing but what was in the list
    have hlist := Table.mem_of_find?_ofList (Table.find?_eq_some_iff.mpr hm)
    exact Json.orderedMembers_iff.mp (orderedMembers_of_members? hms) m hlist
  | unusable => cases h

theorem orderedItems_of_items? {rs : List Raw} {js : List Json} (h : items? rs = some js) :
    Json.OrderedItems js := by
  cases rs with
  | nil =>
    cases h
    trivial
  | cons r rest =>
    simp only [items?, Option.bind_eq_bind, Option.bind_eq_some_iff, Option.some.injEq] at h
    obtain ⟨j, hj, js, hjs, rfl⟩ := h
    exact ⟨ordered_of_json? hj, orderedItems_of_items? hjs⟩

theorem orderedMembers_of_members? {rs : List (String × Raw)} {ms : List (String × Json)}
    (h : members? rs = some ms) : Json.OrderedMembers ms := by
  cases rs with
  | nil =>
    cases h
    trivial
  | cons r rest =>
    obtain ⟨name, r⟩ := r
    simp only [members?, Option.bind_eq_bind, Option.bind_eq_some_iff, Option.some.injEq] at h
    obtain ⟨j, hj, ms, hms, rfl⟩ := h
    exact ⟨ordered_of_json? hj, orderedMembers_of_members? hms⟩

end

/-! ## 4. Pieces of records -/

/-- Where the names of an object differ, a field is the member of its name. -/
theorem unique?_eq {ms : List (String × Raw)} (hd : (ms.map Prod.fst).Nodup) (name : String) :
    unique? name ms = some (Table.lookup name ms) := by
  unfold unique?
  induction ms with
  | nil => rfl
  | cons m rest ih =>
    obtain ⟨n, r⟩ := m
    rw [List.map_cons, List.nodup_cons] at hd
    by_cases hn : n = name
    -- no member behind the first one has its name
    · subst hn
      have hrest : rest.filter (fun m => m.1 == n) = [] := by
        refine List.filter_eq_nil_iff.mpr fun m hm => ?_
        rw [beq_iff_eq]
        rintro rfl
        exact hd.1 (List.mem_map.mpr ⟨m, hm, rfl⟩)
      simp [hrest, Table.lookup]
    · simpa [hn, Table.lookup] using ih hd.2

theorem lookup_map_raw (name : String) (ms : List (String × Json)) :
    Table.lookup name (ms.map fun m => (m.1, m.2.raw)) = (Table.lookup name ms).map Json.raw := by
  induction ms with
  | nil => rfl
  | cons m rest ih =>
    obtain ⟨n, j⟩ := m
    by_cases hn : n = name
    · simp [Table.lookup, hn]
    · simpa [Table.lookup, hn] using ih

/-- The fields of an object whose names differ, in any order that is asked for. -/
theorem record?_object (keys : List String) {ms : List (String × Json)} (hkeys : ms.map Prod.fst = keys)
    (hd : keys.Nodup) (names : List String) :
    (Json.object ms).raw.record? names = some (names.map fun n => (Table.lookup n ms).map Json.raw) := by
  have hraw : ((ms.map fun m => (m.1, m.2.raw)).map Prod.fst).Nodup := by
    rw [List.map_map]
    exact (hkeys.symm ▸ hd : (ms.map Prod.fst).Nodup)
  rw [Json.raw_object]
  unfold record?
  simp only [unique?_eq hraw, lookup_map_raw]
  induction names with
  | nil => rfl
  | cons n rest ih =>
    rw [List.mapM_cons, ih, List.map_cons]
    rfl

theorem map_lookup_names {ms : List (String × Json)} (hd : (ms.map Prod.fst).Nodup) :
    ((ms.map Prod.fst).map fun n => (Table.lookup n ms).map Json.raw) = ms.map fun m => some m.2.raw := by
  rw [List.map_map]
  refine List.map_congr_left fun m hm => ?_
  rw [Function.comp_apply, (Table.lookup_eq_some_iff hd).mpr hm, Option.map_some]

/-- An object that writes the fields of a record and nothing else. -/
theorem record?_fields (names : List String) (ms : List (String × Json)) (hnames : ms.map Prod.fst = names)
    (hd : names.Nodup) : (Json.object ms).raw.record? names = some (ms.map fun m => some m.2.raw) := by
  subst hnames
  rw [record?_object _ rfl hd, map_lookup_names hd]

variable {α : Type}

@[simp] theorem required_some (read : Raw → Option α) (r : Raw) : required read (some r) = read r := rfl

@[simp] theorem withDefault_some (a : α) (read : Raw → Option α) (r : Raw) :
    withDefault a read (some r) = read r := rfl

@[simp] theorem string?_string (s : String) : string? (.string s) = some s := rfl

theorem nullable_some (read : Raw → Option α) {r : Raw} (h : r ≠ .null) :
    nullable read (some r) = (read r).map some := by
  cases r with
  | null => exact absurd rfl h
  | bool | int | float | string | array | object | unusable => rfl

/-- A field that may be absent, left out where it is. -/
theorem nullable_map {f : α → Json} {read : Raw → Option α} {o : Option α}
    (h : ∀ a ∈ o, (f a).raw ≠ .null ∧ read (f a).raw = some a) :
    nullable read (o.map fun a => (f a).raw) = some o := by
  cases o with
  | none => rfl
  | some a =>
    obtain ⟨hnull, hread⟩ := h a rfl
    rw [Option.map_some, nullable_some read hnull, hread, Option.map_some]

/-- A field that may be absent, written as null where it is. -/
theorem nullable_ofOption {f : α → Json} {read : Raw → Option α} {o : Option α}
    (h : ∀ a ∈ o, (f a).raw ≠ .null ∧ read (f a).raw = some a) :
    nullable read (some (Json.ofOption f o).raw) = some o := by
  cases o with
  | none => rfl
  | some a => exact nullable_map h

theorem mapM_map_raw {f : α → Json} {item : Raw → Option α} {xs : List α}
    (h : ∀ x ∈ xs, item (f x).raw = some x) : (xs.map fun x => (f x).raw).mapM item = some xs := by
  induction xs with
  | nil => rfl
  | cons x rest ih =>
    rw [List.forall_mem_cons] at h
    rw [List.map_cons, List.mapM_cons, ih h.2, h.1]
    rfl

theorem list?_ofList {f : α → Json} {item : Raw → Option α} {xs : List α}
    (h : ∀ x ∈ xs, item (f x).raw = some x) : list? item (Json.ofList f xs).raw = some xs := by
  unfold Json.ofList
  rw [Json.raw_array, List.map_map]
  exact mapM_map_raw h

/-- The items of a list that was read were read one by one. -/
theorem exists_of_mem_list? {item : Raw → Option α} {o : Option Raw} {xs : List α} {x : α}
    (h : withDefault [] (list? item) o = some xs) (hx : x ∈ xs) : ∃ r, item r = some x := by
  cases o with
  | none =>
    cases h
    cases hx
  | some r =>
    rw [withDefault_some] at h
    unfold list? at h
    split at h
    · obtain ⟨r, -, hr⟩ := exists_of_mem_mapM h hx
      exact ⟨r, hr⟩
    · cases h

/-! ## 5. Words and numbers -/

@[simp] theorem nullable_map_string (o : Option String) :
    nullable string? (o.map fun s => .string s) = some o := by
  cases o <;> rfl

@[simp] theorem nullable_ofOption_string (o : Option String) :
    nullable string? (some (Json.ofOption .string o).raw) = some o := by
  cases o <;> rfl

@[simp] theorem list?_ofList_string (xs : List String) :
    list? string? (Json.ofList .string xs).raw = some xs :=
  list?_ofList fun _ _ => rfl

theorem float?_ofFloat {x : Float} (h : x.isFinite = true) :
    (Json.ofFloat x).raw ≠ .null ∧ float? (Json.ofFloat x).raw = some x := by
  rw [Json.raw_ofFloat h]
  exact ⟨nofun, rfl⟩

@[simp] theorem int32?_int (i : Int32) : int32? (.int i.toInt) = some i := by
  have hlower : Int32.minValue.toInt ≤ i.toInt := i.le_toInt
  have hupper : i.toInt ≤ Int32.maxValue.toInt := Int.le_of_lt_add_one i.toInt_lt
  unfold int32?
  simp only
  rw [decide_eq_true hlower, decide_eq_true hupper, Bool.and_self, if_pos rfl, Int32.ofInt_toInt]

end Raw

end Scoring
