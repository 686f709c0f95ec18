import Scoring.Json.Basic

/-!
# Shape — taking apart what a JSON text says

The readers of typed records are put together from the pieces here. A record is an object, or an array of
its fields in declaration order; a choice between alternatives is a word, or an object with one member. Every
reader answers nothing when the text does not have its shape.

`sizeOf_lt_of_record?` says that the parts of a record are smaller than the record, which is why readers of
nested records end.
-/

namespace Scoring.Raw

/-! ## Scalars and lists -/

def string? : Raw → Option String
  | .string s => some s
  | _ => none

def bool? : Raw → Option Bool
  | .bool b => some b
  | _ => none

/-- A number, whole or not. -/
def float? : Raw → Option Float
  | .int i => some (Float.ofInt i)
  | .float x => some x
  | _ => none

def int32? : Raw → Option Int32
  | .int i => if Int32.minValue.toInt ≤ i && i ≤ Int32.maxValue.toInt then some (Int32.ofInt i) else none
  | _ => none

def list? {α : Type} (item : Raw → Option α) : Raw → Option (List α)
  | .array items => items.mapM item
  | _ => none

/-! ## Records -/

/-- The value of the member of the given name: nothing inside when there is none, nothing at all when there
are several. -/
def unique? (name : String) (members : List (String × Raw)) : Option (Option Raw) :=
  match members.filter fun m => m.1 == name with
  | [] => some none
  | [(_, r)] => some (some r)
  | _ => none

/-- What is given for the fields of a record, in the order of the names. An object gives the fields by name
and may have other members, an array gives them by position and may end early. -/
def record? (names : List String) : Raw → Option (List (Option Raw))
  | .object members => names.mapM fun name => unique? name members
  | .array items =>
    if items.length ≤ names.length then
      some (items.map some ++ List.replicate (names.length - items.length) none)
    else none
  | _ => none

def required {α : Type} (read : Raw → Option α) : Option Raw → Option α
  | none => none
  | some r => read r

/-- A field with a value of its own where it is absent. -/
def withDefault {α : Type} (value : α) (read : Raw → Option α) : Option Raw → Option α
  | none => some value
  | some r => read r

def nullable {α : Type} (read : Raw → Option α) : Option Raw → Option (Option α)
  | none => some none
  | some .null => some none
  | some r => (read r).map some

/-! ## Choices -/

/-- A word, alone or as the name of a null. -/
def word? : Raw → Option String
  | .string s => some s
  | .object [(name, .null)] => some name
  | _ => none

def variant? : Raw → Option (String × Raw)
  | .object [m] => some m
  | _ => none

inductive Origin where
  | text
  | value
  deriving Repr, DecidableEq

/-- What is given for the fields of an alternative. Only in a text may they be given by position. -/
def content? (origin : Origin) (names : List String) (r : Raw) : Option (List (Option Raw)) :=
  match origin, r with
  | .value, .array _ => none
  | _, r => r.record? names

/-! ## Sizes -/

/-- Each result of a traversal that succeeds comes from one of the items. -/
theorem exists_of_mem_mapM {α β : Type} {f : α → Option β} {xs : List α} {ys : List β} {y : β}
    (h : xs.mapM f = some ys) (hy : y ∈ ys) : ∃ x ∈ xs, f x = some y := by
  induction xs generalizing ys with
  | nil =>
    simp only [List.mapM_nil, pure, Option.some.injEq] at h
    simp [← h] at hy
  | cons x xs ih =>
    simp only [List.mapM_cons, bind, pure, Option.bind_eq_some_iff] at h
    obtain ⟨z, hz, zs, hzs, he⟩ := h
    simp only [Option.some.injEq] at he
    subst he
    rcases List.mem_cons.1 hy with rfl | hy
    · exact ⟨x, by simp, hz⟩
    · obtain ⟨x', hx', hf⟩ := ih hzs hy
      exact ⟨x', by simp [hx'], hf⟩

/-- The value found under a name is the value of a member. -/
theorem mem_of_unique? {name : String} {members : List (String × Raw)} {r : Raw}
    (h : unique? name members = some (some r)) : ∃ n, (n, r) ∈ members := by
  unfold unique? at h
  split at h
  · simp at h
  · rename_i n r' hf
    simp only [Option.some.injEq] at h
    subst h
    exact ⟨n, (List.mem_filter.1 (hf ▸ List.mem_singleton_self _)).1⟩
  · simp at h

theorem sizeOf_lt_of_record? {names : List String} {r x : Raw} {parts : List (Option Raw)}
    (h : r.record? names = some parts) (hx : some x ∈ parts) : sizeOf x < sizeOf r := by
  unfold record? at h
  split at h
  -- an object: the part is the value of one of its members
  · rename_i members
    obtain ⟨_, _, hu⟩ := exists_of_mem_mapM h hx
    obtain ⟨n, hn⟩ := mem_of_unique? hu
    have := List.sizeOf_lt_of_mem hn
    simp only [Raw.object.sizeOf_spec, Prod.mk.sizeOf_spec] at this ⊢
    omega
  -- an array: the part is one of its items
  · rename_i items
    split at h
    · simp only [Option.some.injEq] at h
      subst h
      have hmem : x ∈ items := by simpa using hx
      have := List.sizeOf_lt_of_mem hmem
      simp only [Raw.array.sizeOf_spec]
      omega
    · simp at h
  · simp at h

/-- The parts of an alternative are smaller than its content. -/
theorem sizeOf_lt_of_content? {origin : Origin} {names : List String} {r x : Raw} {parts : List (Option Raw)}
    (h : r.content? origin names = some parts) (hx : some x ∈ parts) : sizeOf x < sizeOf r := by
  unfold content? at h
  split at h
  · simp at h
  · exact sizeOf_lt_of_record? h hx

end Scoring.Raw
