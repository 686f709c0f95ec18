import Scoring.Proofs.Outcome
import Scoring.Proofs.Table
import Scoring.Registry

/-!
# Registry — runs of a registry that many callers share

A store has two parts: the caller opens, parses and compiles on its own, and the scorer is then written in one step.
Between the two anything may happen, so a run is a list of steps in which the parts of many stores mix with unloads and
look-ups. Its log says what was answered, and the registry follows from the log (`registry_follows_log`).
-/

namespace Scoring

open Spec (Document)

/-! ## 1. Stores -/

inductive Store where
  | load (name text : String)
  | insert (name : String) (d : Document)
  | loadFile (name : String) (content : Option String)

namespace Store

def name : Store → String
  | load name _ | insert name _ | loadFile name _ => name

/-- What a caller does on its own: open the file, parse the text and compile the document. -/
def prepare : Store → Outcome Scorer
  | load _ text => Engine.compileText text
  | insert _ d => Compile.document d
  | loadFile _ (some text) => Engine.compileText text
  | loadFile _ none => .error .missingFile

end Store

def Registry.store (g : Registry) : Store → Outcome (Registry × Handle)
  | .load name text => g.load name text
  | .insert name d => g.insert name d
  | .loadFile name content => g.loadFile name content

/-- Each way to store prepares a scorer first and then puts it under the name. -/
theorem Registry.store_eq (g : Registry) (q : Store) :
    g.store q = q.prepare >>= fun s => .ok (g.put q.name s) := by
  have htext : ∀ name text, g.load name text =
      Engine.compileText text >>= fun s => .ok (g.put name s) := by
    intro name text
    unfold load insert Engine.compileText
    cases Engine.parse text <;> rfl
  cases q with
  | load name text => exact htext name text
  | insert name d => rfl
  | loadFile name content =>
    cases content with
    | none => rfl
    | some text => exact htext name text

/-! ## 2. Logs -/

inductive Event where
  | stored (q : Store) (h : Handle)
  | refused (q : Store) (e : Fault)
  | unloaded (name : String) (was : Bool)
  | got (name : String) (h? : Option Handle)

namespace Event

def Touches (name : String) : Event → Prop
  | stored q _ => q.name = name
  | unloaded n _ => n = name
  | refused _ _ | got _ _ => False

def handle? : Event → Option Handle
  | stored _ h => some h
  | got _ h? => h?
  | refused _ _ | unloaded _ _ => none

end Event

/-- The handle of the last successful store under a name, with no unload of the name behind it. -/
def LastStored (log : List Event) (name : String) (h : Handle) : Prop :=
  ∃ before q after, log = before ++ .stored q h :: after ∧ q.name = name ∧ q.prepare = .ok h.scorer ∧
    ∀ e ∈ after, ¬ e.Touches name

section

variable {log : List Event} {name : String} {h : Handle} {e : Event}

theorem lastStored_nil : ¬ LastStored [] name h := by
  rintro ⟨before, q, after, hlog, -⟩
  simp at hlog

theorem LastStored.mem (hl : LastStored log name h) : ∃ q, .stored q h ∈ log := by
  obtain ⟨before, q, after, rfl, -⟩ := hl
  exact ⟨q, by simp⟩

theorem lastStored_append_of_not_touches (he : ¬ e.Touches name) :
    LastStored (log ++ [e]) name h ↔ LastStored log name h := by
  constructor
  · rintro ⟨before, q, after, hlog, hname, hq, hafter⟩
    rcases List.eq_nil_or_concat after with rfl | ⟨after, e', rfl⟩
    -- the last event would be the store
    · obtain ⟨-, hlast⟩ := List.append_inj' hlog rfl
      cases hlast
      exact absurd hname he
    · rw [List.concat_eq_append, ← List.cons_append, ← List.append_assoc] at hlog
      obtain ⟨hlog, -⟩ := List.append_inj' hlog rfl
      exact ⟨before, q, after, hlog, hname, hq, fun e he => hafter e (by simp [he])⟩
  · rintro ⟨before, q, after, rfl, hname, hq, hafter⟩
    refine ⟨before, q, after ++ [e], by simp, hname, hq, fun e' he' => ?_⟩
    rcases List.mem_append.mp he' with he' | he'
    · exact hafter e' he'
    · rw [List.mem_singleton.mp he']
      exact he

theorem lastStored_append_of_touches (he : e.Touches name) :
    LastStored (log ++ [e]) name h ↔ ∃ q, e = .stored q h ∧ q.prepare = .ok h.scorer := by
  constructor
  · rintro ⟨before, q, after, hlog, hname, hq, hafter⟩
    rcases List.eq_nil_or_concat after with rfl | ⟨after, e', rfl⟩
    · obtain ⟨-, hlast⟩ := List.append_inj' hlog rfl
      cases hlast
      exact ⟨q, rfl, hq⟩
    -- no later event may touch the name, but the last one does
    · rw [List.concat_eq_append, ← List.cons_append, ← List.append_assoc] at hlog
      obtain ⟨-, hlast⟩ := List.append_inj' hlog rfl
      cases hlast
      exact absurd he (hafter e (by simp))
  · rintro ⟨q, rfl, hq⟩
    exact ⟨log, q, [], rfl, he, hq, by simp⟩

end

/-! ## 3. Runs -/

inductive Step where
  | prepare (q : Store)
  /-- The write of one of the stores that are prepared. -/
  | write (k : Nat)
  | unload (name : String)
  | get (name : String)

/-- A registry with the stores that are prepared and not yet written, and with all that was answered so far. -/
structure Shared where
  registry : Registry
  prepared : List (Store × Scorer)
  log : List Event

namespace Shared

def start : Shared := ⟨.empty, [], []⟩

def step (s : Shared) : Step → Shared
  | .prepare q =>
    match q.prepare with
    | .ok scorer => { s with prepared := s.prepared ++ [(q, scorer)] }
    | .error e => { s with log := s.log ++ [.refused q e] }
  | .write k =>
    match s.prepared[k]? with
    | some (q, scorer) =>
      let (registry, h) := s.registry.put q.name scorer
      ⟨registry, s.prepared.eraseIdx k, s.log ++ [.stored q h]⟩
    | none => s
  | .unload name =>
    let (registry, was) := s.registry.unload name
    { s with registry, log := s.log ++ [.unloaded name was] }
  | .get name => { s with log := s.log ++ [.got name (s.registry.get? name)] }

def run (steps : List Step) : Shared :=
  steps.foldl step start

theorem run_append (steps more : List Step) : run (steps ++ more) = more.foldl step (run steps) :=
  List.foldl_append

def subject? (s : Shared) : Step → Option String
  | .prepare q => some q.name
  | .write k => s.prepared[k]?.map (·.1.name)
  | .unload name | .get name => some name

def handles (s : Shared) : List Handle :=
  s.log.filterMap (·.handle?)

/-! ## 4. Steps -/

variable {s : Shared}

theorem get?_put (g : Registry) (name n : String) (scorer : Scorer) :
    (g.put name scorer).1.get? n = if n = name then some (g.put name scorer).2 else g.get? n :=
  Table.find?_insert ..

theorem get?_unload (g : Registry) (name n : String) :
    (g.unload name).1.get? n = if n = name then none else g.get? n := by
  unfold Registry.unload Registry.get?
  by_cases h : n = name
  · rw [if_pos h, h, Table.find?_erase_self]
  · rw [if_neg h, Table.find?_erase_of_ne _ h]

section

variable {q : Store} {scorer : Scorer} {k : Nat}

theorem step_prepare_of_ok (hq : q.prepare = .ok scorer) :
    s.step (.prepare q) = { s with prepared := s.prepared ++ [(q, scorer)] } := by
  simp only [step, hq]

theorem step_prepare_of_error {e : Fault} (hq : q.prepare = .error e) :
    s.step (.prepare q) = { s with log := s.log ++ [.refused q e] } := by
  simp only [step, hq]

theorem step_write_of_some (hk : s.prepared[k]? = some (q, scorer)) :
    s.step (.write k) = ⟨(s.registry.put q.name scorer).1, s.prepared.eraseIdx k,
      s.log ++ [.stored q (s.registry.put q.name scorer).2]⟩ := by
  simp only [step, hk]

theorem step_write_of_none (hk : s.prepared[k]? = none) : s.step (.write k) = s := by
  simp only [step, hk]

end

theorem registry_step_prepare (s : Shared) (q : Store) : (s.step (.prepare q)).registry = s.registry := by
  cases hq : q.prepare with
  | ok scorer => rw [step_prepare_of_ok hq]
  | error e => rw [step_prepare_of_error hq]

/-- A step that is about one name leaves the other names as they are. -/
theorem get?_step_of_ne {step : Step} {name : String} (hname : s.subject? step ≠ some name) :
    (s.step step).registry.get? name = s.registry.get? name := by
  cases step with
  | prepare q => rw [registry_step_prepare]
  | write k =>
    cases hk : s.prepared[k]? with
    | none => rw [step_write_of_none hk]
    | some p =>
      have hne : ¬ name = p.1.name := by
        intro h
        exact hname (by simp [subject?, hk, h])
      rw [step_write_of_some hk, get?_put, if_neg hne]
  | unload n =>
    have hne : ¬ name = n := fun h => hname (congrArg some h.symm)
    exact (get?_unload s.registry n name).trans (if_neg hne)
  | get n => rfl

/-- The log only grows. -/
theorem exists_log_step (s : Shared) (step : Step) : ∃ events, (s.step step).log = s.log ++ events := by
  cases step with
  | prepare q =>
    cases hq : q.prepare with
    | ok scorer => exact ⟨[], by rw [step_prepare_of_ok hq, List.append_nil]⟩
    | error e => exact ⟨[.refused q e], by rw [step_prepare_of_error hq]⟩
  | write k =>
    cases hk : s.prepared[k]? with
    | none => exact ⟨[], by rw [step_write_of_none hk, List.append_nil]⟩
    | some p => exact ⟨[.stored p.1 _], by rw [step_write_of_some hk]⟩
  | unload n => exact ⟨[.unloaded n _], rfl⟩
  | get n => exact ⟨[.got n _], rfl⟩

theorem exists_log_foldl (s : Shared) (more : List Step) :
    ∃ events, (more.foldl step s).log = s.log ++ events := by
  induction more generalizing s with
  | nil => exact ⟨[], (List.append_nil _).symm⟩
  | cons step rest ih =>
    obtain ⟨first, hfirst⟩ := exists_log_step s step
    obtain ⟨events, hevents⟩ := ih (s.step step)
    exact ⟨first ++ events, by rw [List.foldl_cons, hevents, hfirst, List.append_assoc]⟩

/-- Handles once given out are never taken back. -/
theorem mem_handles_foldl {h : Handle} (hh : h ∈ s.handles) (more : List Step) :
    h ∈ (more.foldl step s).handles := by
  obtain ⟨events, hevents⟩ := exists_log_foldl s more
  unfold handles at hh ⊢
  rw [hevents, List.filterMap_append]
  exact List.mem_append_left _ hh

/-! ## 5. Invariant -/

structure Sound (s : Shared) : Prop where
  follows : ∀ name h, s.registry.get? name = some h ↔ LastStored s.log name h
  prepared : ∀ p ∈ s.prepared, p.1.prepare = .ok p.2
  /-- The number of the next store is still free. -/
  fresh : ∀ h ∈ s.handles, h.serial < s.registry.stores
  distinct : ∀ h ∈ s.handles, ∀ h' ∈ s.handles, h.serial = h'.serial → h = h'

theorem sound_start : Sound start where
  follows name h := by
    refine ⟨fun hget => ?_, fun hl => absurd hl lastStored_nil⟩
    cases hget
  prepared p hp := by cases hp
  fresh h hh := by cases hh
  distinct h hh := by cases hh

/-- What the registry holds has been given to the caller that stored it. -/
theorem Sound.mem_handles (hs : Sound s) {name : String} {h : Handle}
    (hget : s.registry.get? name = some h) : h ∈ s.handles := by
  obtain ⟨q, hq⟩ := ((hs.follows name h).mp hget).mem
  exact List.mem_filterMap.mpr ⟨_, hq, rfl⟩

theorem Sound.prepare (hs : Sound s) (q : Store) : Sound (s.step (.prepare q)) := by
  cases hq : q.prepare with
  | ok scorer =>
    rw [step_prepare_of_ok hq]
    refine ⟨hs.follows, fun p hp => ?_, hs.fresh, hs.distinct⟩
    rcases List.mem_append.mp hp with hp | hp
    · exact hs.prepared p hp
    · rw [List.mem_singleton.mp hp]
      exact hq
  | error e =>
    rw [step_prepare_of_error hq]
    have hhandles : handles { s with log := s.log ++ [.refused q e] } = s.handles := by
      simp [handles, Event.handle?]
    refine ⟨fun name h => ?_, hs.prepared, hhandles ▸ hs.fresh, hhandles ▸ hs.distinct⟩
    rw [lastStored_append_of_not_touches (by simp [Event.Touches])]
    exact hs.follows name h

theorem Sound.write (hs : Sound s) (k : Nat) : Sound (s.step (.write k)) := by
  cases hk : s.prepared[k]? with
  | none =>
    rw [step_write_of_none hk]
    exact hs
  | some p =>
    obtain ⟨q, scorer⟩ := p
    rw [step_write_of_some hk]
    have hq : q.prepare = .ok scorer := hs.prepared _ (List.mem_of_getElem? hk)
    have hmem : ∀ h, h ∈ handles ⟨(s.registry.put q.name scorer).1, s.prepared.eraseIdx k,
        s.log ++ [.stored q (s.registry.put q.name scorer).2]⟩ ↔
          h ∈ s.handles ∨ h = ⟨s.registry.stores, scorer⟩ := by
      simp [handles, Event.handle?, Registry.put]
    refine ⟨fun name h => ?_, fun p hp => hs.prepared p (List.mem_of_mem_eraseIdx hp),
      fun h hh => ?_, fun h hh h' hh' heq => ?_⟩
    · rw [get?_put]
      by_cases hname : name = q.name
      · have htouches : Event.Touches name (.stored q (s.registry.put q.name scorer).2) := hname.symm
        rw [if_pos hname, lastStored_append_of_touches htouches]
        constructor
        · rintro ⟨⟩
          exact ⟨q, rfl, hq⟩
        · rintro ⟨q', heq, -⟩
          cases heq
          rfl
      · have htouches : ¬ Event.Touches name (.stored q (s.registry.put q.name scorer).2) := Ne.symm hname
        rw [if_neg hname, lastStored_append_of_not_touches htouches]
        exact hs.follows name h
    · show h.serial < s.registry.stores + 1
      rcases (hmem h).mp hh with hh | rfl
      · exact Nat.lt_succ_of_lt (hs.fresh h hh)
      · exact Nat.lt_succ_self _
    -- the new handle has a number that no earlier one has
    · rcases (hmem h).mp hh with hh | rfl
      · rcases (hmem h').mp hh' with hh' | rfl
        · exact hs.distinct h hh h' hh' heq
        · exact absurd heq (Nat.ne_of_lt (hs.fresh h hh))
      · rcases (hmem h').mp hh' with hh' | rfl
        · exact absurd heq.symm (Nat.ne_of_lt (hs.fresh h' hh'))
        · rfl

theorem Sound.unload (hs : Sound s) (name : String) : Sound (s.step (.unload name)) := by
  have hhandles : (s.step (.unload name)).handles = s.handles := by
    simp [step, handles, Event.handle?]
  refine ⟨fun n h => ?_, hs.prepared, hhandles ▸ hs.fresh, hhandles ▸ hs.distinct⟩
  show (s.registry.unload name).1.get? n = some h ↔
    LastStored (s.log ++ [.unloaded name (s.registry.unload name).2]) n h
  rw [get?_unload]
  by_cases hname : n = name
  · have htouches : Event.Touches n (.unloaded name (s.registry.unload name).2) := hname.symm
    rw [if_pos hname, lastStored_append_of_touches htouches]
    simp
  · have htouches : ¬ Event.Touches n (.unloaded name (s.registry.unload name).2) := Ne.symm hname
    rw [if_neg hname, lastStored_append_of_not_touches htouches]
    exact hs.follows n h

theorem Sound.get (hs : Sound s) (name : String) : Sound (s.step (.get name)) := by
  have hsub : ∀ h ∈ (s.step (.get name)).handles, h ∈ s.handles := by
    intro h hh
    simp only [step, handles, List.filterMap_append, List.mem_append] at hh
    rcases hh with hh | hh
    · exact hh
    -- what a look-up finds was given out when it was stored
    · have hget : s.registry.get? name = some h := by simpa [Event.handle?] using hh
      exact hs.mem_handles hget
  refine ⟨fun n h => ?_, hs.prepared, fun h hh => hs.fresh h (hsub h hh),
    fun h hh h' hh' => hs.distinct h (hsub h hh) h' (hsub h' hh')⟩
  show s.registry.get? n = some h ↔ LastStored (s.log ++ [_]) n h
  rw [lastStored_append_of_not_touches (by simp [Event.Touches])]
  exact hs.follows n h

theorem Sound.step (hs : Sound s) (step : Step) : Sound (s.step step) := by
  cases step with
  | prepare q => exact hs.prepare q
  | write k => exact hs.write k
  | unload name => exact hs.unload name
  | get name => exact hs.get name

theorem Sound.foldl (hs : Sound s) (more : List Step) : Sound (more.foldl Shared.step s) := by
  induction more generalizing s with
  | nil => exact hs
  | cons step rest ih => exact ih (hs.step step)

theorem sound_run (steps : List Step) : Sound (run steps) :=
  sound_start.foldl steps

/-! ## 6. Runs of any length -/

/-- A store that fails is over when it is prepared, and has changed nothing but the log. -/
theorem step_prepare_of_store_eq_error {q : Store} {e : Fault} (h : s.registry.store q = .error e) :
    s.step (.prepare q) = { s with log := s.log ++ [.refused q e] } := by
  rw [Registry.store_eq, Outcome.bind_eq_error] at h
  rcases h with h | ⟨scorer, -, h⟩
  · exact step_prepare_of_error h
  · cases h

/-- Nothing comes between the two parts of a store when its write is the next step. -/
theorem step_write_of_store_eq_ok {q : Store} {g : Registry} {h : Handle}
    (hq : s.registry.store q = .ok (g, h)) :
    (s.step (.prepare q)).step (.write s.prepared.length) =
      { s with registry := g, log := s.log ++ [.stored q h] } := by
  rw [Registry.store_eq, Outcome.bind_eq_ok] at hq
  obtain ⟨scorer, hscorer, hput⟩ := hq
  rw [Except.ok.injEq] at hput
  have hlast : (s.prepared ++ [(q, scorer)])[s.prepared.length]? = some (q, scorer) := by simp
  rw [step_prepare_of_ok hscorer, step_write_of_some hlast, hput]
  simp [List.eraseIdx_append_of_length_le]

theorem contains_iff (g : Registry) (name : String) :
    g.contains name = true ↔ ∃ h, g.get? name = some h :=
  Option.isSome_iff_exists

theorem mem_names_iff (g : Registry) (name : String) : name ∈ g.names ↔ ∃ h, g.get? name = some h :=
  Table.contains_iff_mem_names.symm.trans (contains_iff g name)

/-- After any run, a name leads to the scorer of the last store under it that succeeded, unless it was unloaded since;
stores count when they are written and not when they are begun. Failing stores change nothing, no step touches a name
that it is not about, the listings agree with the look-ups, and a handle keeps its scorer forever. -/
theorem registry_follows_log (steps : List Step) :
    (∀ name h, (run steps).registry.get? name = some h ↔ LastStored (run steps).log name h) ∧
    (∀ q e, (run steps).registry.store q = .error e →
      (run steps).step (.prepare q) = { run steps with log := (run steps).log ++ [.refused q e] }) ∧
    (∀ q g h, (run steps).registry.store q = .ok (g, h) →
      ((run steps).step (.prepare q)).step (.write (run steps).prepared.length) =
        { run steps with registry := g, log := (run steps).log ++ [.stored q h] }) ∧
    (∀ step name, (run steps).subject? step ≠ some name →
      ((run steps).step step).registry.get? name = (run steps).registry.get? name) ∧
    ((run steps).registry.names.Pairwise (· < ·) ∧
      (∀ name, name ∈ (run steps).registry.names ↔ ∃ h, (run steps).registry.get? name = some h) ∧
      (run steps).registry.size = (run steps).registry.names.length ∧
      ((run steps).registry.isEmpty = true ↔ (run steps).registry.names = [])) ∧
    (∀ name, ∃ was, ((run steps).step (.unload name)).log = (run steps).log ++ [.unloaded name was] ∧
      (was = true ↔ ∃ h, (run steps).registry.get? name = some h) ∧
      ((run steps).step (.unload name)).registry.get? name = none) ∧
    ∀ more, ∀ h ∈ (run steps).handles, h ∈ (run (steps ++ more)).handles ∧
      ∀ h' ∈ (run (steps ++ more)).handles, h'.serial = h.serial → h' = h := by
  have hs := sound_run steps
  refine ⟨hs.follows, fun q e => step_prepare_of_store_eq_error,
    fun q g h => step_write_of_store_eq_ok, fun step name => get?_step_of_ne,
    ⟨Table.names_pairwise _, mem_names_iff _, (Table.length_names _).symm, ?_⟩, fun name => ?_,
    fun more h hh => ?_⟩
  · show List.isEmpty _ = true ↔ List.map _ _ = []
    rw [List.isEmpty_iff, List.map_eq_nil_iff]
  · exact ⟨_, rfl, contains_iff _ name, (get?_unload _ name name).trans (if_pos rfl)⟩
  · have hlater := mem_handles_foldl hh more
    rw [← run_append] at hlater
    exact ⟨hlater, fun h' hh' heq => (sound_run (steps ++ more)).distinct h' hh' h hlater heq⟩

/-- A document whose only model answers one class whatever it is asked. -/
def constantDocument (label : String) : Document where
  version := none
  dictionary := ⟨[.continuous "x" .double]⟩
  transformations := ⟨[]⟩
  models := [.tree {
    name := none
    function := .classification
    schema := ⟨[.active "x"]⟩
    transformations := ⟨[]⟩
    strategy := .returnNullPrediction
    root := .node none (some label) none .always [] [] }]

def constantText : String :=
  "\x7b\"dataDictionary\": \x7b\"dataFields\": []\x7d, \"models\": [\x7b\"TreeModel\": \x7b" ++
  "\"functionName\": \"classification\", \"miningSchema\": \x7b\"miningFields\": []\x7d, " ++
  "\"node\": \x7b\"predicate\": \"True\", \"score\": \"no\"\x7d\x7d\x7d]\x7d"

/-- Two callers store under one name. The one that begins later is done first, and what it stored is unloaded before
the other one writes. A third caller finds no file. -/
def overtaken : List Step :=
  [.prepare (.insert "m" (constantDocument "yes")), .prepare (.load "m" constantText), .write 1, .get "m",
    .unload "m", .get "m", .write 0, .prepare (.loadFile "m" none)]

theorem registry_follows_log_overtaken :
    (∃ h, (run overtaken).registry.get? "m" = some h ∧ h.serial = 1 ∧
      h.scorer.label (fun _ => []) = .ok "yes" ∧ LastStored (run overtaken).log "m" h) ∧
    (∃ h ∈ (run (overtaken.take 4)).handles, h.scorer.label (fun _ => []) = .ok "no" ∧
      h ∈ (run overtaken).handles) ∧
    (run overtaken).step (.prepare (.loadFile "m" none)) =
      { run overtaken with log := (run overtaken).log ++ [.refused (.loadFile "m" none) .missingFile] } ∧
    ((run overtaken).step (.unload "m")).log = (run overtaken).log ++ [.unloaded "m" true] ∧
      ((run overtaken).step (.unload "m")).registry.get? "m" = none := by
  have hanswers : (((run overtaken).registry.get? "m").map fun h =>
        (h.serial, (h.scorer.label fun _ => []).toOption),
      (run (overtaken.take 4)).handles.head?.map fun h => (h.scorer.label fun _ => []).toOption) =
      (some (1, some "yes"), some (some "no")) := by decide +kernel
  obtain ⟨hget, hearly⟩ := Prod.mk.inj hanswers
  obtain ⟨h, hh, heq⟩ := Option.map_eq_some_iff.mp hget
  obtain ⟨early, hmem, hno⟩ := Option.map_eq_some_iff.mp hearly
  rw [Prod.mk.injEq, Outcome.toOption_eq_some_iff] at heq
  rw [Outcome.toOption_eq_some_iff] at hno
  obtain ⟨hfollows, hfails, -, -, -, hunload, hkept⟩ := registry_follows_log overtaken
  obtain ⟨was, hlog, hwas, hgone⟩ := hunload "m"
  obtain rfl : was = true := hwas.mpr ⟨h, hh⟩
  have hearlier := ((registry_follows_log (overtaken.take 4)).2.2.2.2.2.2 (overtaken.drop 4) early
    (List.mem_of_head? hmem)).1
  rw [List.take_append_drop] at hearlier
  exact ⟨⟨h, hh, heq.1, heq.2, (hfollows "m" h).mp hh⟩, ⟨early, List.mem_of_head? hmem, hno, hearlier⟩,
    hfails _ _ rfl, hlog, hgone⟩

end Shared

end Scoring
