import Scoring.Proofs.Json.Shape
import Scoring.Spec.Decoder
import Scoring.Spec.Encoder

/-!
# Fields — reading back words, fields and expressions

What is written of a field is read back as the same field, with all of its words, its options and the expressions that
nest in it.
-/

namespace Scoring.Spec

open Raw

/-! ## 1. Words -/

/-- An enumeration whose spellings all differ. -/
class LawfulKeyword (α : Type) [Keyword α] : Prop where
  ofSpelling?_spelling (w : α) : Keyword.ofSpelling? (Keyword.spelling w) = some w

instance : LawfulKeyword OpType := ⟨fun w => by cases w <;> rfl⟩

instance : LawfulKeyword DataType := ⟨fun w => by cases w <;> rfl⟩

instance : LawfulKeyword UsageType := ⟨fun w => by cases w <;> rfl⟩

instance : LawfulKeyword MiningFunction := ⟨fun w => by cases w <;> rfl⟩

instance : LawfulKeyword GeneralType := ⟨fun w => by cases w <;> rfl⟩

instance : LawfulKeyword Distribution := ⟨fun w => by cases w <;> rfl⟩

instance : LawfulKeyword LinkFunction := ⟨fun w => by cases w <;> rfl⟩

instance : LawfulKeyword Normalization := ⟨fun w => by cases w <;> rfl⟩

instance : LawfulKeyword NoTrueChildStrategy := ⟨fun w => by cases w <;> rfl⟩

instance : LawfulKeyword SimpleOperator := ⟨fun w => by cases w <;> rfl⟩

instance : LawfulKeyword SetOperator := ⟨fun w => by cases w <;> rfl⟩

instance : LawfulKeyword CompoundOperator := ⟨fun w => by cases w <;> rfl⟩

instance : LawfulKeyword OtherFamily := ⟨fun w => by cases w <;> rfl⟩

namespace Keyword

variable {α : Type} [Keyword α] [LawfulKeyword α]

@[simp] theorem ofRaw?_toJson (w : α) : ofRaw? (toJson w).raw = some w :=
  LawfulKeyword.ofSpelling?_spelling w

@[simp] theorem nullable_ofOption_toJson (o : Option α) :
    nullable ofRaw? (some (Json.ofOption toJson o).raw) = some o :=
  nullable_ofOption fun w _ => ⟨nofun, ofRaw?_toJson w⟩

end Keyword

/-! ## 2. Data fields -/

theorem DataField.ofRaw?_toJson (f : DataField) : ofRaw? f.toJson.raw = some f := by
  unfold ofRaw? toJson
  rw [record?_fields]
  · simp
  · rfl
  · decide

theorem DataDictionary.ofRaw?_toJson (d : DataDictionary) : ofRaw? d.toJson.raw = some d := by
  unfold ofRaw? toJson
  rw [record?_fields]
  · simp [list?_ofList fun f _ => DataField.ofRaw?_toJson f]
  · rfl
  · decide

/-- A record whose last field is left out where it is absent. -/
theorem record?_present {α : Type} {names : List String} {ms : List (String × Json)} {name : String}
    {f : α → Json} {o : Option α} (hnames : ms.map Prod.fst ++ [name] = names) (hd : names.Nodup) :
    (Json.object (ms ++ present name f o)).raw.record? names =
      some (ms.map (fun m => some m.2.raw) ++ [o.map fun a => (f a).raw]) := by
  subst hnames
  cases o with
  | some a =>
    unfold present
    rw [record?_fields _ _ (by rw [List.map_append]; rfl) hd, List.map_append]
    rfl
  | none =>
    obtain ⟨hms, -, hnew⟩ := List.nodup_append.mp hd
    have hlookup : Table.lookup name ms = none := by
      refine Table.lookup_eq_none_iff.mpr fun hmem => ?_
      exact hnew name hmem name (List.mem_singleton_self name) rfl
    unfold present
    rw [List.append_nil, record?_object _ rfl hms, List.map_append, map_lookup_names hms, List.map_singleton,
      hlookup]
    rfl

/-! ## 3. Expressions -/

namespace Expression

/-- An object tells the kind of an expression as its member `type`, and the other members are its parts. -/
theorem split?_object (nested : Bool) (kind : String) (keys : List String) (ms : List (String × Json))
    (hkeys : ms.map Prod.fst = keys) (hd : ("type" :: keys).Nodup) :
    ∃ members, (Json.object (("type", .string kind) :: ms)).raw = .object members ∧
      split? nested (.object members) = some (kind, .object members) ∧
      (Raw.object members).record? keys = some (ms.map fun m => some m.2.raw) := by
  subst hkeys
  have hraw : (((("type", Json.string kind) :: ms).map fun m => (m.1, m.2.raw)).map Prod.fst).Nodup := by
    rw [List.map_map]
    exact hd
  refine ⟨_, Json.raw_object _, ?_, ?_⟩
  · unfold split?
    simp only [unique?_eq hraw, lookup_map_raw, Table.lookup, if_true, Option.map_some, Option.bind_eq_bind,
      Option.bind_some]
    rfl
  · rw [← Json.raw_object, record?_object ("type" :: ms.map Prod.fst) rfl hd,
      ← map_lookup_names (List.nodup_cons.mp hd).2]
    refine congrArg some (List.map_congr_left fun n hn => ?_)
    -- none of the parts is called `type`
    have hne : "type" ≠ n := by
      rintro rfl
      exact (List.nodup_cons.mp hd).1 hn
    rw [Table.lookup, if_neg hne]

theorem read?_apply {nested : Bool} {r body : Raw} {function : Option Raw} {items : List Raw}
    (hs : split? nested r = some ("Apply", body))
    (hb : body.record? ["function", "expressions"] = some [function, some (.array items)]) :
    read? nested r = (do some (.apply (← required string? function) (← readAll? items))) := by
  rw [read?]
  split
  · rename_i h
    rw [hs] at h
    cases h
  · rename_i kind body' h
    rw [hs] at h
    cases h
    rw [if_pos rfl]
    split
    · rename_i h
      rw [hb] at h
      cases h
    · rename_i h
      rw [hb] at h
      cases h
      rfl
    · rename_i hother
      exact absurd hb (hother function items)

theorem read?_leaf {nested : Bool} {r : Raw} {kind : String} {members : List (String × Raw)}
    (hs : split? nested r = some (kind, .object members)) (hkind : kind ≠ "Apply") :
    read? nested r =
      if kind = "Constant" then do
        match ← (Raw.object members).record? ["value"] with
        | [value] => some (.constant (← nullable string? value))
        | _ => none
      else if kind = "FieldRef" then do
        match ← (Raw.object members).record? ["field"] with
        | [field] => some (.fieldRef (← required string? field))
        | _ => none
      else some .unsupported := by
  rw [read?]
  split
  · rename_i h
    rw [hs] at h
    cases h
  · rename_i kind' body' h
    rw [hs] at h
    cases h
    exact if_neg hkind

mutual

/-- An expression is read back wherever it stands. -/
theorem read?_toJson (nested : Bool) (e : Expression) : read? nested e.toJson.raw = some e := by
  cases e with
  | apply function arguments =>
    obtain ⟨members, hraw, hs, hb⟩ := split?_object nested "Apply" ["function", "expressions"]
      [("function", .string function), ("expressions", .array (allToJson arguments))] rfl (by decide)
    have harray : (Json.array (allToJson arguments)).raw = .array ((allToJson arguments).map Json.raw) :=
      Json.raw_array _
    rw [List.map_cons, List.map_singleton, harray] at hb
    rw [toJson, hraw, read?_apply hs hb, readAll?_allToJson arguments]
    rfl
  | constant value =>
    obtain ⟨members, hraw, hs, hb⟩ := split?_object nested "Constant" ["value"]
      [("value", .ofOption .string value)] rfl (by decide)
    rw [toJson, hraw, read?_leaf hs (by decide), if_pos rfl, hb]
    simp
  | fieldRef field =>
    obtain ⟨members, hraw, hs, hb⟩ := split?_object nested "FieldRef" ["field"]
      [("field", .string field)] rfl (by decide)
    rw [toJson, hraw, read?_leaf hs (by decide), if_neg (by decide), if_pos rfl, hb]
    rfl
  | unsupported =>
    obtain ⟨members, hraw, hs, -⟩ := split?_object nested "Unsupported" [] [] rfl (by decide)
    rw [toJson, hraw, read?_leaf hs (by decide), if_neg (by decide), if_neg (by decide)]

theorem readAll?_allToJson (es : List Expression) : readAll? ((allToJson es).map Json.raw) = some es := by
  cases es with
  | nil => rw [allToJson, List.map_nil, readAll?]
  | cons e rest =>
    rw [allToJson, List.map_cons, readAll?, read?_toJson true e, readAll?_allToJson rest]
    rfl

end

theorem ofRaw?_toJson (e : Expression) : ofRaw? e.toJson.raw = some e := by
  unfold ofRaw?
  rw [if_pos (Json.isSome_json?_raw _), read?_toJson false e]

end Expression

/-! ## 4. Derived fields and mining schemas -/

theorem DerivedField.ofRaw?_toJson (f : DerivedField) : ofRaw? f.toJson.raw = some f := by
  unfold ofRaw? toJson
  rw [record?_fields]
  · simp [Expression.ofRaw?_toJson]
  · rfl
  · decide

theorem TransformationDictionary.ofRaw?_toJson (d : TransformationDictionary) :
    ofRaw? d.toJson.raw = some d := by
  unfold ofRaw? toJson
  rw [record?_fields]
  · simp [list?_ofList fun f _ => DerivedField.ofRaw?_toJson f]
  · rfl
  · decide

theorem MiningField.ofRaw?_toJson (f : MiningField) : ofRaw? f.toJson.raw = some f := by
  unfold ofRaw? toJson
  rw [record?_present]
  · simp
  · rfl
  · decide

theorem MiningSchema.ofRaw?_toJson (s : MiningSchema) : ofRaw? s.toJson.raw = some s := by
  unfold ofRaw? toJson
  rw [record?_fields]
  · simp [list?_ofList fun f _ => MiningField.ofRaw?_toJson f]
  · rfl
  · decide

end Scoring.Spec
