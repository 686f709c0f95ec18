import Mathlib.Algebra.Ring.Nat
import Mathlib.Data.List.Basic
import Scoring.Layout.Parameters

/-!
# Row — spans that follow each other, with the slots of their indices

A layout is a row of blocks: each block is a span with one slot for each of its indices, and starts where the
block before it ends. The index of a slot is then the offset of its span plus its place in the block
(`getElem?_slots_iff`), which is all that later proofs use of the arithmetic of offsets.
-/

namespace Scoring

theorem eq_of_getElem?_singleton {α : Type} {a b : α} {k : Nat} (h : [a][k]? = some b) :
    k = 0 ∧ a = b := by
  rw [List.getElem?_singleton] at h
  split at h
  · exact ⟨‹_›, Option.some.inj h⟩
  · cases h

/-! ## 1. Spans without gaps -/

def Span.Contiguous : Nat → List Span → Prop
  | _, [] => True
  | start, s :: rest => s.offset = start ∧ Span.Contiguous s.stop rest

namespace Span

theorem gap?_eq_none_iff {start : Nat} {spans : List Span} :
    gap? start spans = none ↔ Contiguous start spans := by
  induction spans generalizing start with
  | nil => simp [gap?, Contiguous]
  | cons s rest ih =>
    unfold gap? Contiguous
    by_cases h : s.offset = start
    · rw [if_pos h, ih]
      simp [h]
    · simp [h]

/-- The last of contiguous spans ends behind all of their indices. -/
theorem Contiguous.stop_getLast {start : Nat} {spans : List Span} (h : Contiguous start spans)
    {s : Span} (hs : spans.getLast? = some s) : s.stop = start + (spans.map size).sum := by
  induction spans generalizing start with
  | nil => simp at hs
  | cons t rest ih =>
    obtain ⟨ht, hrest⟩ := h
    rw [List.map_cons, List.sum_cons]
    -- the last span is this one, or the last one behind it
    cases rest with
    | nil =>
      simp only [List.getLast?_singleton, Option.some.injEq] at hs
      subst hs
      simp only [List.map_nil, List.sum_nil, Nat.add_zero]
      unfold stop
      rw [ht]
    | cons u us =>
      rw [List.getLast?_cons_cons] at hs
      rw [ih hrest hs]
      unfold stop
      omega

end Span

theorem Vectorizer.spans_of_ofSpans {spans : List Span} {v : Vectorizer} (h : ofSpans spans = .ok v) :
    v.spans = spans := by
  unfold ofSpans at h
  split at h
  · cases h
    rfl
  · cases h

/-- The vectors of a vectorizer have one number for each index of its spans. -/
theorem Vectorizer.size_eq_sum (v : Vectorizer) : v.size = (v.spans.map Span.size).sum := by
  have hc := Span.gap?_eq_none_iff.mp v.aligned
  unfold Vectorizer.size
  cases hs : v.spans.getLast? with
  | none =>
    rw [List.getLast?_eq_none_iff] at hs
    simp [hs]
  | some s =>
    have := hc.stop_getLast hs
    simpa using this

/-! ## 2. Blocks -/

structure Block where
  span : Span
  slots : Slots

namespace Block

/-- Blocks follow each other from an index on, each with one slot for each index of its span. -/
def InRow : Nat → List Block → Prop
  | _, [] => True
  | start, b :: rest =>
    b.span.offset = start ∧ b.slots.length = b.span.size ∧ InRow b.span.stop rest

end Block

def Layout.ofBlocks (bs : List Block) : Layout :=
  ⟨bs.map (·.span), (bs.map (·.slots)).flatten⟩

namespace Block

open Layout (ofBlocks)

@[simp] theorem spans_ofBlocks (bs : List Block) : (ofBlocks bs).spans = bs.map (·.span) := rfl

@[simp] theorem slots_ofBlocks (bs : List Block) :
    (ofBlocks bs).slots = (bs.map (·.slots)).flatten := rfl

theorem InRow.contiguous {start : Nat} {bs : List Block} (h : InRow start bs) :
    Span.Contiguous start (ofBlocks bs).spans := by
  induction bs generalizing start with
  | nil => trivial
  | cons b rest ih => exact ⟨h.1, ih h.2.2⟩

theorem InRow.length_slots {start : Nat} {bs : List Block} (h : InRow start bs) :
    (ofBlocks bs).slots.length = ((ofBlocks bs).spans.map Span.size).sum := by
  induction bs generalizing start with
  | nil => rfl
  | cons b rest ih =>
    have hrest := ih h.2.2
    simp only [spans_ofBlocks, slots_ofBlocks] at hrest ⊢
    rw [List.map_cons, List.map_cons, List.map_cons, List.flatten_cons, List.length_append,
      List.sum_cons, hrest, h.2.1]

theorem InRow.length_of_mem {start : Nat} {bs : List Block} (h : InRow start bs) {b : Block}
    (hb : b ∈ bs) : b.slots.length = b.span.size := by
  induction bs generalizing start with
  | nil => simp at hb
  | cons c rest ih =>
    rcases List.mem_cons.mp hb with rfl | hb
    · exact h.2.1
    · exact ih h.2.2 hb

/-- A row put behind another one makes a longer row. -/
theorem InRow.append {start : Nat} {bs cs : List Block} (hb : InRow start bs)
    (hc : InRow (start + (ofBlocks bs).slots.length) cs) : InRow start (bs ++ cs) := by
  induction bs generalizing start with
  | nil => simpa using hc
  | cons b rest ih =>
    obtain ⟨hoff, hlen, hrest⟩ := hb
    refine ⟨hoff, hlen, ih hrest ?_⟩
    -- the blocks behind the first start as many indices later as it has slots
    have hstop : b.span.stop = start + b.slots.length := by
      unfold Span.stop
      rw [hoff, hlen]
    simp only [slots_ofBlocks, List.map_cons, List.flatten_cons, List.length_append] at hc ⊢
    rwa [hstop, Nat.add_assoc]

/-- No block of a row starts before the row does. -/
theorem InRow.le_offset {start : Nat} {bs : List Block} (h : InRow start bs) {b : Block}
    (hb : b ∈ bs) : start ≤ b.span.offset := by
  induction bs generalizing start with
  | nil => simp at hb
  | cons c rest ih =>
    obtain ⟨hoff, -, hrest⟩ := h
    rcases List.mem_cons.mp hb with rfl | hb
    · omega
    · have := ih hrest hb
      unfold Span.stop at this
      omega

/-- The slot at an index of a row is the slot of a block whose span reaches the index. -/
theorem InRow.getElem?_slots_iff {start : Nat} {bs : List Block} (h : InRow start bs) {k : Nat}
    {slot : Option String} :
    (ofBlocks bs).slots[k]? = some slot ↔
      ∃ b ∈ bs, ∃ i, b.slots[i]? = some slot ∧ b.span.offset + i = start + k := by
  induction bs generalizing start k with
  | nil => simp [ofBlocks]
  | cons b rest ih =>
    obtain ⟨hoff, hlen, hrest⟩ := h
    have hrec := ih hrest (k := k - b.slots.length)
    simp only [slots_ofBlocks, List.map_cons, List.flatten_cons] at hrec ⊢
    have hstop : b.span.stop = start + b.slots.length := by
      unfold Span.stop
      rw [hoff, hlen]
    by_cases hk : k < b.slots.length
    -- within the first block; the blocks behind it start too far out
    · rw [List.getElem?_append_left hk]
      constructor
      · intro hslot
        exact ⟨b, List.mem_cons_self, k, hslot, by omega⟩
      · rintro ⟨c, hc, i, hslot, hi⟩
        rcases List.mem_cons.mp hc with rfl | hc
        · rwa [show k = i by omega]
        · have := hrest.le_offset hc
          omega
    · rw [List.getElem?_append_right (by omega), hrec]
      constructor
      · rintro ⟨c, hc, i, hslot, hi⟩
        exact ⟨c, List.mem_cons_of_mem b hc, i, hslot, by omega⟩
      · rintro ⟨c, hc, i, hslot, hi⟩
        rcases List.mem_cons.mp hc with rfl | hc
        · have := (List.getElem?_eq_some_iff.mp hslot).1
          omega
        · exact ⟨c, hc, i, hslot, by omega⟩

/-- In a row from 0 on, a block's slots stand at the offset of its span. -/
theorem InRow.slot_of_mem {bs : List Block} (h : InRow 0 bs) {b : Block} (hb : b ∈ bs) {i : Nat}
    {slot : Option String} (hi : b.slots[i]? = some slot) :
    (ofBlocks bs).slots[b.span.offset + i]? = some slot :=
  h.getElem?_slots_iff.mpr ⟨b, hb, i, hi, (Nat.zero_add _).symm⟩

end Block

namespace Layout

theorem size_eq_sum (l : Layout) : l.size = (l.spans.map Span.size).sum := by
  unfold size
  induction l.spans with
  | nil => rfl
  | cons s rest ih => rw [List.foldr_cons, ih, List.map_cons, List.sum_cons]

theorem ofBlocks_append (bs cs : List Block) :
    ofBlocks (bs ++ cs) =
      ⟨(ofBlocks bs).spans ++ (ofBlocks cs).spans, (ofBlocks bs).slots ++ (ofBlocks cs).slots⟩ := by
  simp [ofBlocks]

end Layout

end Scoring
