import Scoring.Field.Observation
import Scoring.Proofs.Outcome
import Scoring.Proofs.Table

/-!
# Observation — what an intake reads

An observation that is read from a record shows the fields of its intake and no others, whatever the record holds.
What can go wrong is that a field has several values or one of another type.
-/

namespace Scoring

/-- The check passes when every expected name is there and as many are listed as are there. -/
theorem Observation.check_eq_ok_iff {o : Observation} {expected : List String} :
    o.check expected = .ok () ↔ (∀ n ∈ expected, n ∈ o.names) ∧ expected.length = o.size := by
  unfold check
  split
  · rename_i n hfind
    have hmem := List.mem_of_find?_eq_some hfind
    have hmissing : n ∉ o.names := by
      simpa [← Table.contains_iff_mem_names] using List.find?_some hfind
    exact iff_of_false (by simp) fun h => hmissing (h.1 n hmem)
  · rename_i hfind
    have hthere : ∀ n ∈ expected, n ∈ o.names := by
      simpa [← Table.contains_iff_mem_names] using hfind
    split
    · rename_i hlength
      exact iff_of_true rfl ⟨hthere, hlength⟩
    · rename_i hlength
      exact iff_of_false (by simp) fun h => hlength h.2

/-- An observation of the expected fields passes the check. -/
theorem Observation.check_eq_ok {o : Observation} {expected : List String} (h : o.names = expected) :
    o.check expected = .ok () := by
  subst h
  exact check_eq_ok_iff.mpr ⟨fun _ hn => hn, Table.length_names o⟩

/-- A list that is neither empty nor a single item has two items or more. -/
theorem two_le_length {α : Type} {xs : List α} (hnil : xs = [] → False) (hone : ∀ x, xs = [x] → False) :
    2 ≤ xs.length := by
  match xs with
  | [] => exact (hnil rfl).elim
  | [x] => exact (hone x rfl).elim
  | x :: y :: rest => simp

/-- Why a field of a record has no single value of the field's type. -/
inductive Field.Refuses (r : Record) (f : Field) : Mismatch → Prop
  | repeatedValue (several : 2 ≤ (f.values r).length) :
      Field.Refuses r f (.repeatedValue f.name (f.values r).length)
  | dataType {v : Scalar} (value : f.values r = [v]) (other : v.coerce? f.dataType = none) :
      Field.Refuses r f (.dataType f.name v f.dataType)

theorem Field.refuses_of_observe {f : Field} {r : Record} {e : Fault} (h : f.observe r = .error e) :
    ∃ cause, e = .mismatch cause ∧ f.Refuses r cause := by
  unfold observe at h
  split at h
  · cases h
  · rename_i v hv
    split at h
    · cases h
    · rename_i hcoerce
      cases h
      exact ⟨_, rfl, .dataType hv hcoerce⟩
  · rename_i hnil hone
    cases h
    exact ⟨_, rfl, .repeatedValue (two_le_length hnil hone)⟩

/-- What is observed of a field is its only value, brought to the field's type. -/
theorem Field.exists_of_observe {f : Field} {r : Record} {w : Scalar} (h : f.observe r = .ok (some w)) :
    ∃ v, f.values r = [v] ∧ v.coerce? f.dataType = some w := by
  unfold observe at h
  split at h
  · cases h
  · rename_i v hv
    split at h
    · rename_i hcoerce
      cases h
      exact ⟨v, hv, hcoerce⟩
    · cases h
  · cases h

namespace Intake

variable {i : Intake} {r : Record}

/-- The fields of an intake stand under their own names. -/
theorem name_of_find? {s : Scope} {names : List String} {i : Intake} (h : ofNames s names = .ok i)
    {name : String} {f : Field} (hf : i.find? name = some f) : f.name = name := by
  unfold ofNames at h
  rw [Outcome.bind_eq_ok] at h
  obtain ⟨fields, -, hi⟩ := h
  cases hi
  obtain ⟨g, -, hg⟩ := List.mem_map.mp (Table.mem_of_find?_ofList hf)
  cases hg
  rfl

theorem ofNames_singleton {s : Scope} {name : String} {f : Field} (h : s.resolve name = .ok f) :
    ofNames s [name] = .ok (Table.ofList [(f.name, f)]) := by
  unfold ofNames
  rw [List.mapM_cons, h, List.mapM_nil]
  rfl

/-- Every field of the intake gives one value, under the name that the field stands under. -/
theorem exists_of_observe {o : Observation} (h : i.observe r = .ok o) :
    ∃ values, o = Table.ofList values ∧ values.map Prod.fst = i.names ∧
      List.Forall₂ (fun e v => v.1 = e.1 ∧ e.2.observe r = .ok v.2) i.entries values := by
  unfold observe at h
  rw [Outcome.bind_eq_ok] at h
  obtain ⟨values, hvalues, ho⟩ := h
  cases ho
  have hfields : List.Forall₂ (fun e v => v.1 = e.1 ∧ e.2.observe r = .ok v.2) i.entries values := by
    refine (Outcome.mapM_eq_ok.mp hvalues).imp ?_
    rintro ⟨name, f⟩ v hv
    rw [Outcome.bind_eq_ok] at hv
    obtain ⟨w, hw, hpair⟩ := hv
    cases hpair
    exact ⟨rfl, hw⟩
  refine ⟨values, rfl, ?_, hfields⟩
  unfold Table.names
  clear hvalues
  generalize i.entries = es at hfields ⊢
  induction hfields with
  | nil => rfl
  | cons hhead _ ih => rw [List.map_cons, List.map_cons, hhead.1, ih]

theorem names_of_observe {o : Observation} (h : i.observe r = .ok o) : o.names = i.names := by
  obtain ⟨values, rfl, hnames, -⟩ := exists_of_observe h
  apply eq_of_ascending_of_mem_iff (Table.names_pairwise _) i.names_pairwise
  intro n
  rw [Table.mem_names_ofList, hnames]

/-- What is observed of a field is what the field has in the record. -/
theorem observe_of_find? {o : Observation} (h : i.observe r = .ok o) {name : String} {f : Field}
    (hf : i.find? name = some f) : f.observe r = .ok (o.value? name) := by
  obtain ⟨values, rfl, hnames, hfields⟩ := exists_of_observe h
  obtain ⟨⟨name', v⟩, hmem, rfl, hv⟩ :=
    Outcome.exists_right_of_forall₂ hfields (Table.find?_eq_some_iff.mp hf)
  have hd : (values.map Prod.fst).Nodup := hnames ▸ i.names_nodup
  have hfind : (Table.ofList values).find? name' = some v := by
    rw [Table.find?_ofList hd]
    exact (Table.lookup_eq_some_iff hd).mpr hmem
  rw [Observation.value?, hfind]
  exact hv

/-- What keeps a record from being observed is one of the fields. -/
theorem refuses_of_observe {e : Fault} (h : i.observe r = .error e) :
    ∃ f ∈ i.values, ∃ cause, e = .mismatch cause ∧ f.Refuses r cause := by
  unfold observe at h
  rw [Outcome.bind_eq_error] at h
  rcases h with h | ⟨values, -, h⟩
  · obtain ⟨⟨name, f⟩, hf, herror⟩ := Outcome.exists_of_mapM_eq_error h
    rw [Outcome.bind_eq_error] at herror
    rcases herror with herror | ⟨v, -, herror⟩
    · exact ⟨f, List.mem_map_of_mem hf, Field.refuses_of_observe herror⟩
    · cases herror
  · cases h

end Intake

end Scoring
