import PinnedBench.Proofs.Bench.Implementations
import PinnedBench.Proofs.Bench.Preflight
import PinnedBench.Proofs.Keyed

/-!
# Profiles in the summary of a benchmark

A benchmark that observes the use of resources takes a profile of each implementation of its list
(`Bench.observed_of_run`). Its summary lists them by the keys of the implementations, and of two
profiles under one key it keeps the last.

So whether a profile is lost is a matter of the keys, and it is decided by the list alone
(`Bench.profiles_of_run`). A list may name an implementation twice, and it may name two
implementations that share a key, since a slash is not refused in a name. If no language has one,
only a repeated entry loses a profile.
-/

namespace PinnedBench

/-- An outcome with a profile of each implementation. -/
def Outcome.Observed (o : Outcome) : Prop := ∀ e ∈ o, e.profile.isSome = true

/-- The profile of a measurement, or the one of no samples if there is none. -/
def Measurement.observed (e : Measurement) : Profile Double := e.profile.getD (.of [])

theorem Outcome.Observed.profile_eq {o : Outcome} (h : o.Observed) {e : Measurement} (he : e ∈ o) :
    e.profile = some e.observed := by
  obtain ⟨p, hp⟩ := Option.isSome_iff_exists.mp (h e he)
  unfold Measurement.observed
  rw [hp, Option.getD_some]

namespace RunSummary

variable {o : Outcome}

/-! ### Profiles by their keys -/

/-- **No profile is lost** in a summary: there are as many as there are measurements, and each of
them stands under the key of its implementation. -/
structure ListsProfiles (s : RunSummary) (o : Outcome) : Prop where
  /-- There are as many profiles as measurements. -/
  size_eq : s.profiles.size = o.length
  /-- Under the key of an implementation stands the profile that was taken of it. -/
  find?_eq : ∀ e ∈ o, s.profiles.find? e.implementation.key = e.profile

/-- The profiles are listed one for each measurement, before any of them is lost. -/
theorem profilesOf_eq (h : o.Observed) :
    profilesOf o = .ofList (o.map fun e => (e.implementation.key, e.observed)) := by
  unfold profilesOf
  rw [← List.filterMap_eq_map]
  apply congrArg
  apply List.filterMap_congr
  -- No measurement is passed over, since each of them has a profile.
  intro e he
  rw [h.profile_eq he]
  rfl

/-- The keys under which profiles are listed are those of the implementations. -/
theorem map_fst_profiles (o : Outcome) :
    (o.map fun e => (e.implementation.key, e.observed)).map (·.1) =
      (o.map (·.implementation)).map Implementation.key := by
  rw [List.map_map, List.map_map]
  rfl

/-- **The keys** of the profiles are those of the implementations, each of them once. -/
theorem keys_profilesOf (h : o.Observed) :
    (profilesOf o).keys.Perm ((o.map (·.implementation)).map Implementation.key).dedup := by
  rw [profilesOf_eq h, ← map_fst_profiles]
  exact Keyed.keys_ofList_perm _

/-- **Under a key** stands the profile of the last measurement with that key. -/
theorem find?_profilesOf (h : o.Observed) (k : String) :
    (profilesOf o).find? k =
      (o.reverse.find? fun e => e.implementation.key == k).bind (·.profile) := by
  rw [profilesOf_eq h, Keyed.find?_ofList_map fun e : Measurement => e.implementation.key]
  cases hlast : o.reverse.find? fun e => e.implementation.key == k with
  | none => rfl
  | some e =>
    -- What is found is a measurement of the outcome, so it has a profile.
    have he : e ∈ o := List.mem_reverse.mp (List.mem_of_find?_eq_some hlast)
    rw [Option.map_some, Option.bind_some, h.profile_eq he]

/-- **All profiles are listed** exactly if all keys are different. -/
theorem listsProfiles_iff (h : o.Observed) (x : Descriptor) (c : Configuration) :
    (of o x c).ListsProfiles o ↔ ((o.map (·.implementation)).map Implementation.key).Nodup := by
  -- Keying keeps as many entries as there are different keys.
  have hsize := @Keyed.size_ofList_eq_length _ (o.map fun e => (e.implementation.key, e.observed))
  rw [map_fst_profiles, List.length_map, ← profilesOf_eq h] at hsize
  constructor
  · intro hlists
    exact hsize.mp hlists.size_eq
  · intro hnodup
    refine ⟨hsize.mpr hnodup, ?_⟩
    intro e he
    -- No other measurement takes the place under the key.
    show (profilesOf o).find? e.implementation.key = e.profile
    rw [profilesOf_eq h, h.profile_eq he]
    apply (Keyed.find?_ofList_of_nodup (by rwa [map_fst_profiles])).mpr
    exact List.mem_map.mpr ⟨e, he, rfl⟩

end RunSummary

namespace Bench

open RunSummary

/-! ### Benchmarks that observe -/

section Observed

variable {σ : Type} [Files (StateM σ)] [StoreMachine σ] [Host (StateM σ)]
variable {x : Descriptor} {d : Path} {text : List Char} {implementations : List Implementation}
  {c : Configuration} {o : Outcome} {m m' : σ}

/-- **A benchmark that observes** takes a profile of each implementation, in their order. -/
theorem observed_of_run (hobserves : c.observes = true)
    (h : runOn (run x d implementations c) m = (.ok o, m')) :
    o.map (·.implementation) = implementations ∧ o.Observed := by
  have hmeasured : List.Forall₂ (fun i e => e.profile.isSome = true ∧ e.implementation = i)
      implementations o := by
    refine forall₂_of_run ?_ h
    intro i m₁
    -- The samples may be any, but there is a profile of them.
    unfold measure
    rw [if_pos hobserves]
    exact ⟨rfl, rfl⟩
  obtain ⟨hobserved, hsame⟩ := (List.forall₂_and_left _ _).mp hmeasured.flip
  rw [← List.forall₂_map_left_iff, List.forall₂_eq_eq_eq] at hsame
  exact ⟨hsame, hobserved⟩

/-- **Which profiles a summary lists.** Let a benchmark of a list of implementations observe the use
of resources. There is one profile for each key in its summary, that of the last implementation with
the key. No profile is lost exactly if all keys are different; if no language has a slash in it,
that is if no two entries of the list are the same, blanks apart. -/
theorem profiles_of_run (hparse : Implementation.parseList text = .ok implementations)
    (hobserves : c.observes = true)
    (h : runOn (run x d implementations c) m = (.ok o, m')) :
    o.map (·.implementation) = implementations ∧ o.Observed ∧
      (of o x c).profiles.keys.Perm (implementations.map Implementation.key).dedup ∧
      (∀ k, (of o x c).profiles.find? k =
        (o.reverse.find? fun e => e.implementation.key == k).bind (·.profile)) ∧
      ((of o x c).ListsProfiles o ↔ (implementations.map Implementation.key).Nodup) ∧
      ((∀ i ∈ implementations, '/' ∉ i.name.toList) →
        ((of o x c).ListsProfiles o ↔ ((Implementation.entries text).map trim).Nodup)) := by
  obtain ⟨himplementations, hobserved⟩ := observed_of_run hobserves h
  have hkeys := keys_profilesOf hobserved
  have hlists := listsProfiles_iff hobserved x c
  rw [himplementations] at hkeys hlists
  refine ⟨himplementations, hobserved, hkeys, find?_profilesOf hobserved, hlists, ?_⟩
  -- Without slashes the keys are repeated with the implementations, and these with the entries of
  -- the list.
  intro hslash
  rw [hlists, Implementation.nodup_map_key hslash, Implementation.nodup_of_parseList hparse]

end Observed

/-- The standard configuration, with the use of resources observed. -/
def observing : Configuration := { Configuration.standard with observes := true }

/-- A lock pins a dataset that has just been generated. -/
theorem exists_locked :
    ∃ (x : Descriptor) (w : Workbench), Dataset.LockHolds w.store ⟨"data"⟩ x.hash := by
  obtain ⟨x, w, h⟩ := Dataset.generates_in_empty
    (store_workbench (Workbench.ofStore (Store.ofCurrent [])))
  obtain ⟨s, b, -, rfl, hholds, -⟩ := Dataset.holds_of_generate h
  exact ⟨Descriptor.of ⟨1, 1, 1, 0⟩ s (Content.generate ⟨1, 1, 1, 0⟩ s), w,
    Dataset.lockHolds_of_read hholds.read_lock⟩

/-- Two implementations with slashes in their names are profiled where their keys are different. -/
theorem different_keys_keep_profiles : ∃ (x : Descriptor) (w : Workbench) (o : Outcome),
    Implementation.parseList "a/b-c,a-b/d".toList = .ok [⟨"a/b", "c"⟩, ⟨"a", "b/d"⟩] ∧
      runOn (run x ⟨"data"⟩ [⟨"a/b", "c"⟩, ⟨"a", "b/d"⟩] observing) w = (.ok o, w) ∧
      (of o x observing).ListsProfiles o := by
  obtain ⟨x, w, hlock⟩ := exists_locked
  have hparse : Implementation.parseList "a/b-c,a-b/d".toList =
      .ok [⟨"a/b", "c"⟩, ⟨"a", "b/d"⟩] := by decide
  have hrun := runOn_run_workbench [⟨"a/b", "c"⟩, ⟨"a", "b/d"⟩] (c := observing) rfl hlock
  obtain ⟨-, -, -, -, hlists, -⟩ := profiles_of_run hparse rfl hrun
  exact ⟨x, w, _, hparse, hrun, hlists.mpr (by decide)⟩

/-- Of two implementations that share a key, only one profile is left. -/
theorem shared_key_loses_profile : ∃ (x : Descriptor) (w : Workbench) (o : Outcome),
    Implementation.parseList "a/b-c,a-b/c".toList = .ok [⟨"a/b", "c"⟩, ⟨"a", "b/c"⟩] ∧
      runOn (run x ⟨"data"⟩ [⟨"a/b", "c"⟩, ⟨"a", "b/c"⟩] observing) w = (.ok o, w) ∧
      o.map (·.implementation) = [⟨"a/b", "c"⟩, ⟨"a", "b/c"⟩] ∧ o.Observed ∧
      (of o x observing).profiles.keys = ["a/b/c"] ∧ ¬(of o x observing).ListsProfiles o := by
  obtain ⟨x, w, hlock⟩ := exists_locked
  have hrun := runOn_run_workbench [⟨"a/b", "c"⟩, ⟨"a", "b/c"⟩] (c := observing) rfl hlock
  obtain ⟨himplementations, hobserved⟩ := observed_of_run rfl hrun
  have hkeys := keys_profilesOf hobserved
  have hlists := listsProfiles_iff hobserved x observing
  rw [himplementations] at hkeys hlists
  -- The two keys are one text.
  refine ⟨x, w, _, by decide, hrun, himplementations, hobserved, ?_, ?_⟩
  · exact List.perm_singleton.mp hkeys
  · rw [hlists]
    decide

end Bench

end PinnedBench
