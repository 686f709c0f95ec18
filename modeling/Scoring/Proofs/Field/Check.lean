import Mathlib.Data.List.Perm.Subperm
import Scoring.Proofs.Field.Observation

/-!
# Check — which observations a model accepts

Before a tree or a Bayes model reads an observation, it checks the names that the observation shows against its own.
The check looks for each expected name and then compares the two numbers of names. That tells the right names from
all others when the expected ones are listed once each, as an intake lists them. A name that is listed twice is counted
twice: then the right names are one too few, and what passes shows a name that nobody expects
(`Observation.check_counts_repetitions`).
-/

namespace Scoring

namespace Observation

variable {o : Observation} {expected : List String}

/-! ## 1. Outcomes of the check -/

inductive Refuses (o : Observation) (expected : List String) : Mismatch → Prop
  | noField {before after : List String} {n : String} (listed : expected = before ++ n :: after)
      (there : ∀ m ∈ before, m ∈ o.names) (missing : n ∉ o.names) : Refuses o expected (.noField n)
  | extraFields (there : ∀ n ∈ expected, n ∈ o.names) (number : expected.length ≠ o.size) :
      Refuses o expected (.extraFields o.names expected.length)

/-- The check reports the first expected name that is not there, or else the names that are. -/
theorem check_eq_error_iff {e : Fault} :
    o.check expected = .error e ↔ ∃ cause, e = .mismatch cause ∧ o.Refuses expected cause := by
  constructor
  · intro h
    unfold check at h
    split at h
    · rename_i n hfind
      cases h
      obtain ⟨hn, before, after, hlisted, hbefore⟩ := List.find?_eq_some_iff_append.mp hfind
      refine ⟨_, rfl, .noField hlisted ?_ ?_⟩
      · simpa [← Table.contains_iff_mem_names] using hbefore
      · simpa [← Table.contains_iff_mem_names] using hn
    · rename_i hfind
      split at h
      · cases h
      · rename_i hlength
        cases h
        exact ⟨_, rfl, .extraFields (by simpa [← Table.contains_iff_mem_names] using hfind) hlength⟩
  · rintro ⟨cause, rfl, hcause⟩
    unfold check
    cases hcause with
    | @noField before after n hlisted hthere hmissing =>
      have hfind : (expected.find? fun n => !o.contains n) = some n := by
        refine List.find?_eq_some_iff_append.mpr ⟨?_, before, after, hlisted, ?_⟩
        · simpa [← Table.contains_iff_mem_names] using hmissing
        · simpa [← Table.contains_iff_mem_names] using hthere
      rw [hfind]
    | extraFields hthere hlength =>
      have hfind : (expected.find? fun n => !o.contains n) = none := by
        simpa [← Table.contains_iff_mem_names] using hthere
      rw [hfind]
      exact if_neg hlength

/-! ## 2. Counting instead of comparing -/

def ShowsExactly (o : Observation) (expected : List String) : Prop :=
  ∀ n, n ∈ o.names ↔ n ∈ expected

/-- As many names as are there, each listed once, are all names that are there. -/
theorem showsExactly_of_check (h : o.check expected = .ok ()) (hd : expected.Nodup) : o.ShowsExactly expected := by
  obtain ⟨hthere, hlength⟩ := check_eq_ok_iff.mp h
  have hsub : expected.Subperm o.names := List.subperm_of_subset hd hthere
  have hperm : expected.Perm o.names := hsub.perm_of_length_le (by rw [Table.length_names, hlength])
  exact fun n => hperm.mem_iff.symm

theorem check_of_showsExactly (h : o.ShowsExactly expected) (hd : expected.Nodup) : o.check expected = .ok () :=
  check_eq_ok_iff.mpr ⟨fun n hn => (h n).mpr hn, (Table.length_eq_size_iff h).mpr hd⟩

/-- Expected names that are listed once each pass when they are the names that are there, and only then. Where a name is
listed more than once it is the other way round: what passes shows a name that is not expected, and the expected names
alone are refused, by a number that is too great. Every refusal names the first expected name that is not there, or all
that are there. An intake lists its names once, so it accepts its own fields and nothing else. -/
theorem check_counts_repetitions (o : Observation) (expected : List String) :
    (expected.Nodup → (o.check expected = .ok () ↔ o.ShowsExactly expected)) ∧
    (¬ expected.Nodup → o.check expected = .ok () → ∃ n ∈ o.names, n ∉ expected) ∧
    (¬ expected.Nodup → o.ShowsExactly expected →
      o.check expected = .error (.mismatch (.extraFields o.names expected.length)) ∧ o.size < expected.length) ∧
    (∀ e, o.check expected = .error e ↔ ∃ cause, e = .mismatch cause ∧ o.Refuses expected cause) ∧
    (∀ i : Intake, o.check i.names = .ok () ↔ o.names = i.names) := by
  refine ⟨fun hd => ⟨fun h => showsExactly_of_check h hd, fun h => check_of_showsExactly h hd⟩, ?_, ?_,
    fun e => check_eq_error_iff, fun i => ⟨fun h => ?_, check_eq_ok⟩⟩
  · intro hd h
    obtain ⟨hthere, hlength⟩ := check_eq_ok_iff.mp h
    -- were all names that are there expected, none could be listed twice
    by_contra hall
    push Not at hall
    exact hd ((Table.length_eq_size_iff fun n => ⟨hall n, hthere n⟩).mp hlength)
  · intro hd h
    -- the right names, but more of them are counted than there are
    have hthere : ∀ n ∈ expected, n ∈ o.names := fun n hn => (h n).mpr hn
    have hlength : expected.length ≠ o.size := mt (Table.length_eq_size_iff h).mp hd
    have hle : o.names.length ≤ expected.length :=
      (List.subperm_of_subset o.names_nodup fun n hn => (h n).mp hn).length_le
    rw [Table.length_names] at hle
    exact ⟨check_eq_error_iff.mpr ⟨_, rfl, .extraFields hthere hlength⟩, by omega⟩
  · exact eq_of_ascending_of_mem_iff o.names_pairwise i.names_pairwise
      (showsExactly_of_check h i.names_nodup)

/-- Where `a` is expected once, `b` is too many; where it is expected twice, `b` stands for the second one. -/
theorem check_counts_repetitions_twice :
    ∃ o : Observation, o.names = ["a", "b"] ∧
      o.check ["a"] ≠ .ok () ∧ o.check ["a", "a"] = .ok () ∧ ∃ n ∈ o.names, n ∉ ["a", "a"] := by
  have hpasses : check (Table.ofList [("a", none), ("b", none)]) ["a", "a"] = .ok () :=
    check_eq_ok_iff.mpr (by decide)
  refine ⟨Table.ofList [("a", none), ("b", none)], by decide, ?_, hpasses, ?_⟩
  · intro h
    have hshows := ((check_counts_repetitions _ ["a"]).1 (by decide)).mp h "b"
    exact absurd (hshows.mp (by decide)) (by decide)
  · exact (check_counts_repetitions _ ["a", "a"]).2.1 (by decide) hpasses

/-- The check does not accept exactly the expected names: expected twice, `a` lets `b` pass, and is refused alone. -/
theorem check_not_exact :
    ¬ ∀ (o : Observation) (expected : List String), o.check expected = .ok () ↔ o.ShowsExactly expected := by
  intro h
  have hpasses : check (Table.ofList [("a", none), ("b", none)]) ["a", "a"] = .ok () :=
    check_eq_ok_iff.mpr (by decide)
  have hshows := (h _ _).mp hpasses "b"
  exact absurd (hshows.mp (by decide)) (by decide)

end Observation

end Scoring
