import Scoring.Json.Reader
import Scoring.Json.Shape
import Scoring.Proofs.Decimal.Finite
import Scoring.Proofs.Table

/-!
# Finite — the numbers of JSON texts

JSON has no word for infinity, and a number that is too large for a double makes its text unusable. So whatever a text
says, the numbers of its value are finite (`Json.finite_of_ofString?`): those of the tokens are, and the reader only
puts them together.
-/

namespace Scoring

inductive Json.Finite : Json → Prop
  | null : Finite .null
  | bool (b : Bool) : Finite (.bool b)
  | int {i : Int} (number : (Float.ofInt i).isFinite = true) : Finite (.int i)
  | float {x : Float} (number : x.isFinite = true) : Finite (.float x)
  | string (s : String) : Finite (.string s)
  | array {items : List Json} (all : ∀ j ∈ items, j.Finite) : Finite (.array items)
  | object {members : List (String × Json)} (all : ∀ m ∈ members, m.2.Finite) : Finite (.object members)

/-- What a text says has only finite numbers, as far as it is usable. -/
inductive Raw.Finite : Raw → Prop
  | null : Finite .null
  | bool (b : Bool) : Finite (.bool b)
  | int {i : Int} (number : (Float.ofInt i).isFinite = true) : Finite (.int i)
  | float {x : Float} (number : x.isFinite = true) : Finite (.float x)
  | string (s : String) : Finite (.string s)
  | array {items : List Raw} (all : ∀ r ∈ items, r.Finite) : Finite (.array items)
  | object {members : List (String × Raw)} (all : ∀ m ∈ members, m.2.Finite) : Finite (.object members)
  | unusable : Finite .unusable

/-! ## 1. Values -/

mutual

theorem Raw.finite_of_json? {r : Raw} {j : Json} (hr : r.Finite) (h : r.json? = some j) : j.Finite := by
  cases hr with
  | null | bool | string =>
    cases h
    constructor
  | int hi =>
    cases h
    exact .int hi
  | float hx =>
    cases h
    exact .float hx
  | array hall =>
    rw [Raw.json?, Option.map_eq_some_iff] at h
    obtain ⟨js, hjs, rfl⟩ := h
    exact .array (Raw.finite_of_items? hall hjs)
  | object hall =>
    -- of several members with one name the object keeps one
    rw [Raw.json?, Option.map_eq_some_iff] at h
    obtain ⟨ms, hms, rfl⟩ := h
    refine .object fun m hm => Raw.finite_of_members? hall hms m ?_
    exact Table.mem_of_find?_ofList (Table.find?_eq_some_iff.mpr hm)
  | unusable => cases h

theorem Raw.finite_of_items? {rs : List Raw} {js : List Json} (hrs : ∀ r ∈ rs, r.Finite)
    (h : Raw.items? rs = some js) : ∀ j ∈ js, j.Finite := by
  cases rs with
  | nil =>
    cases h
    simp
  | cons r rest =>
    simp only [Raw.items?, bind, Option.bind_eq_some_iff] at h
    obtain ⟨j, hj, js', hjs', hjs⟩ := h
    cases hjs
    rw [List.forall_mem_cons] at hrs ⊢
    exact ⟨Raw.finite_of_json? hrs.1 hj, Raw.finite_of_items? hrs.2 hjs'⟩

theorem Raw.finite_of_members? {rs : List (String × Raw)} {js : List (String × Json)}
    (hrs : ∀ m ∈ rs, m.2.Finite) (h : Raw.members? rs = some js) : ∀ m ∈ js, m.2.Finite := by
  cases rs with
  | nil =>
    cases h
    simp
  | cons m rest =>
    obtain ⟨name, r⟩ := m
    simp only [Raw.members?, bind, Option.bind_eq_some_iff] at h
    obtain ⟨j, hj, js', hjs', hjs⟩ := h
    cases hjs
    rw [List.forall_mem_cons] at hrs ⊢
    exact ⟨Raw.finite_of_json? hrs.1 hj, Raw.finite_of_members? hrs.2 hjs'⟩

end

/-! ## 2. Tokens -/

namespace Token

def Finite : Token → Prop
  | .scalar r => r.Finite
  | _ => True

theorem finite_floatNumber (negative : Bool) (x : Decimal.Scientific) : (floatNumber negative x).Finite := by
  unfold floatNumber
  split
  -- what would be infinite is unusable
  · exact .unusable
  · rename_i hword
    have hle : x.word .double ≤ Decimal.WordFormat.double.infinity := by
      rw [Decimal.Scientific.word_eq Decimal.WordFormat.double_readable]
      exact Decimal.WordFormat.nearest_le_infinity _ _ _
    exact .float ((Decimal.isFinite_withSign hle).mpr (lt_of_le_of_ne hle hword))

theorem finite_wholeNumber (negative : Bool) (n : Nat) : (wholeNumber negative n).Finite := by
  have hsize : UInt64.size = 2 ^ 64 := rfl
  unfold wholeNumber
  -- integers of 64 bits stay integers, and greater ones are read like fractions
  split
  · split
    · rename_i hn
      simp only [Bool.and_eq_true, decide_eq_true_eq] at hn
      exact .int (Decimal.isFinite_ofInt (by omega))
    · exact finite_floatNumber _ _
  · split
    · exact .int (Decimal.isFinite_ofInt (by omega))
    · exact finite_floatNumber _ _

theorem finite_of_unsigned? {negative : Bool} {cs : List Char} {r : Raw} (h : unsigned? negative cs = some r) :
    r.Finite := by
  unfold unsigned? at h
  simp only at h
  split at h
  · cases h
  · split at h
    · cases h
      exact finite_wholeNumber _ _
    · split at h
      · cases h
      · obtain ⟨e, -, rfl⟩ := Option.map_eq_some_iff.mp h
        exact finite_floatNumber _ _
    · obtain ⟨e, -, rfl⟩ := Option.map_eq_some_iff.mp h
      exact finite_floatNumber _ _

theorem finite_of_scalar? {cs : List Char} {r : Raw} (h : scalar? cs = some r) : r.Finite := by
  unfold scalar? at h
  split at h
  · cases h
    exact .null
  · split at h
    · cases h
      exact .bool true
    · split at h
      · cases h
        exact .bool false
      · unfold number? at h
        split at h
        · exact finite_of_unsigned? h
        · exact finite_of_unsigned? h

/-- All numbers among the words of a text are finite. -/
theorem finite_of_scan {cs : List Char} {ts : List Token} (h : scan cs = some ts) : ∀ t ∈ ts, t.Finite := by
  fun_induction scan cs generalizing ts with
  | case1 =>
    cases h
    simp
  | case2 c rest hspace ih => exact ih h
  | case3 => cases h
  | case4 rest hspace ps behind hpieces hlt ih =>
    obtain ⟨ts', hts', rfl⟩ := Option.map_eq_some_iff.mp h
    exact List.forall_mem_cons.mpr ⟨trivial, ih hts'⟩
  | case5 c rest hspace hquote t hmark ih =>
    obtain ⟨ts', hts', rfl⟩ := Option.map_eq_some_iff.mp h
    refine List.forall_mem_cons.mpr ⟨?_, ih hts'⟩
    unfold mark? at hmark
    split at hmark <;> cases hmark <;> trivial
  | case6 => cases h
  | case7 c rest hspace hquote hmark hlength r hscalar ih =>
    obtain ⟨ts', hts', rfl⟩ := Option.map_eq_some_iff.mp h
    exact List.forall_mem_cons.mpr ⟨finite_of_scalar? hscalar, ih hts'⟩

end Token

/-! ## 3. The reader -/

namespace Reader

def Frame.Finite : Frame → Prop
  | .array items => ∀ r ∈ items, r.Finite
  | .object members | .member members _ => ∀ m ∈ members, m.2.Finite

structure State.Finite (s : State) : Prop where
  result : ∀ r, s.expecting = .done r → r.Finite
  frames : ∀ f ∈ s.frames, f.Finite

theorem finite_object {members : List (Option String × Raw)} (h : ∀ m ∈ members, m.2.Finite) :
    (object members).Finite := by
  unfold object
  split
  · rename_i ms hms
    refine .object fun m hm => ?_
    obtain ⟨⟨name, r⟩, hmember, hnamed⟩ := Raw.exists_of_mem_mapM hms (List.mem_reverse.mp hm)
    obtain ⟨n, -, rfl⟩ := Option.map_eq_some_iff.mp hnamed
    exact h _ hmember
  · exact .unusable

variable {depth : Nat} {r : Raw} {frames : List Frame} {s s' : State}

theorem finite_of_place (hr : r.Finite) (hframes : ∀ f ∈ frames, f.Finite) (h : place r frames = some s) :
    s.Finite := by
  cases frames with
  | nil =>
    cases h
    refine ⟨fun r' hr' => ?_, by simp⟩
    cases hr'
    exact hr
  | cons f rest =>
    rw [List.forall_mem_cons] at hframes
    cases f with
    | array items =>
      cases h
      exact ⟨by simp, List.forall_mem_cons.mpr ⟨List.forall_mem_cons.mpr ⟨hr, hframes.1⟩, hframes.2⟩⟩
    | object members => cases h
    | member members name =>
      cases h
      exact ⟨by simp, List.forall_mem_cons.mpr ⟨List.forall_mem_cons.mpr ⟨hr, hframes.1⟩, hframes.2⟩⟩

theorem finite_of_close (hr : r.Finite) (hframes : ∀ f ∈ frames, f.Finite) (h : close depth r frames = some s) :
    s.Finite := by
  unfold close at h
  split at h
  · exact finite_of_place .unusable hframes h
  · exact finite_of_place hr hframes h

/-- One more token keeps the numbers finite. -/
theorem finite_step {t : Token} (hs : s.Finite) (ht : t.Finite) (h : step depth s t = some s') : s'.Finite := by
  have hframes := hs.frames
  unfold step at h
  split at h
  -- a scalar or a string is complete
  case h_1 | h_2 => exact finite_of_place ht hframes h
  case h_3 | h_4 =>
    refine finite_of_place ?_ hframes h
    split
    · exact .string _
    · exact .unusable
  -- one more array or object is open
  case h_5 | h_6 | h_7 | h_8 =>
    cases h
    exact ⟨by simp, List.forall_mem_cons.mpr ⟨by simp [Frame.Finite], hframes⟩⟩
  -- the innermost one is closed
  case h_9 | h_16 =>
    rename_i items frames _ hinner
    rw [hinner, List.forall_mem_cons] at hframes
    exact finite_of_close (.array fun r hr => hframes.1 r (List.mem_reverse.mp hr)) hframes.2 h
  case h_10 | h_17 =>
    rename_i members frames _ hinner
    rw [hinner, List.forall_mem_cons] at hframes
    exact finite_of_close (finite_object hframes.1) hframes.2 h
  -- names and separators leave the numbers where they are
  case h_11 | h_12 | h_14 | h_15 =>
    rename_i hinner
    rw [hinner, List.forall_mem_cons] at hframes
    cases h
    exact ⟨by simp, List.forall_mem_cons.mpr hframes⟩
  case h_13 =>
    cases h
    exact ⟨by simp, hframes⟩
  case h_18 => cases h

/-- All tokens together do. -/
theorem finite_run {ts : List Token} (hs : s.Finite) (hts : ∀ t ∈ ts, t.Finite)
    (h : ts.foldlM (step depth) s = some s') : s'.Finite := by
  induction ts generalizing s with
  | nil =>
    cases h
    exact hs
  | cons t rest ih =>
    simp only [List.foldlM_cons, bind, Option.bind_eq_some_iff] at h
    obtain ⟨next, hnext, h⟩ := h
    rw [List.forall_mem_cons] at hts
    exact ih (finite_step hs hts.1 hnext) hts.2 h

theorem finite_of_read? {ts : List Token} (hts : ∀ t ∈ ts, t.Finite) (h : read? depth ts = some r) : r.Finite := by
  unfold read? at h
  split at h
  · rename_i r' frames hrun
    cases h
    have hstart : State.Finite ⟨.value, []⟩ := ⟨by simp, by simp⟩
    exact (finite_run hstart hts hrun).result _ rfl
  · cases h

end Reader

/-- All numbers are finite that the text of a JSON value says. -/
theorem Json.finite_of_ofString? {text : String} {j : Json} (h : Json.ofString? text = some j) : j.Finite := by
  simp only [Json.ofString?, Raw.ofString?, Raw.ofText?, bind, Option.bind_eq_some_iff] at h
  obtain ⟨r, ⟨ts, hts, hr⟩, hj⟩ := h
  exact Raw.finite_of_json? (Reader.finite_of_read? (Token.finite_of_scan hts) hr) hj

end Scoring
