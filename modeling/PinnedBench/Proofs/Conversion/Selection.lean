import PinnedBench.Proofs.Keyed
import PinnedBench.Proofs.Report.Audit

/-!
# What a conversion takes from a collection

A report of collected figures compares two entries and lists a made profile of every entry. The two
are looked for by name, and the first entry of a name is taken. The profiles are listed by key, and
the last entry under a key is kept.

Where no two entries share a name or a key, both rules pick the same entry, wherever it stands. So
the order of the entries does not matter, and neither do the entries that are not compared
(`Collection.report_of_selected`).

Where two entries share a key, a profile is lost, and the one that is left may be of another entry
than the one whose time is compared. `Collection.profiles_of_report` says which profile stands under
each key, and that all profiles are there, those of the compared entries under their own keys,
exactly if all keys are different.
-/

namespace PinnedBench

/-! ### Looking for entries -/

section Entries

variable {α : Type} {entries entries' : List (Entry α)}

/-- The implementation that an entry is about. -/
def Entry.label (e : Entry α) : Implementation := ⟨e.language, e.implementation⟩

/-- An entry is found under a name, or the name is told as unknown. -/
theorem findEntry_eq (entries : List (Entry α)) (name : String) :
    findEntry entries name =
      (entries.find? fun e => e.implementation == name).elim (.error (.unknownImplementation name))
        .ok := by
  unfold findEntry
  cases entries.find? fun e => e.implementation == name <;> rfl

/-- What is found is the first entry with the name. -/
theorem findEntry_eq_ok {name : String} {e : Entry α} :
    findEntry entries name = .ok e ↔
      (entries.find? fun e => e.implementation == name) = some e := by
  rw [findEntry_eq]
  cases entries.find? fun e => e.implementation == name <;> simp

theorem implementation_of_findEntry {name : String} {e : Entry α}
    (h : findEntry entries name = .ok e) : e.implementation = name := by
  have hname := List.find?_some (findEntry_eq_ok.mp h)
  simpa using hname

/-- **The order** of entries with different names does not matter when one of them is looked for,
whether it is there or not. -/
theorem findEntry_perm (hperm : entries.Perm entries')
    (h : (entries.map (·.implementation)).Nodup) (name : String) :
    findEntry entries name = findEntry entries' name := by
  have h' : (entries'.map (·.implementation)).Nodup := (hperm.map _).nodup_iff.mp h
  have hfind : (entries.find? fun e => e.implementation == name) =
      entries'.find? fun e => e.implementation == name := by
    apply Option.ext
    intro e
    -- Where names are different, the first entry with a name is the only one, so being found is
    -- being there.
    rw [find?_eq_some_iff_mem h, find?_eq_some_iff_mem h', hperm.mem_iff]
  rw [findEntry_eq, findEntry_eq, hfind]

/-- An entry with another name is not found, wherever it stands. -/
theorem findEntry_cons_middle {before after : List (Entry α)} {e : Entry α} {name : String}
    (h : e.implementation ≠ name) :
    findEntry (before ++ e :: after) name = findEntry (before ++ after) name := by
  -- The search goes past the entry.
  have hother : (e.implementation == name) = false := beq_eq_false_iff_ne.mpr h
  rw [findEntry_eq, findEntry_eq, List.find?_append, List.find?_append, List.find?_cons, hother]

end Entries

namespace Collection

variable {x : Collection} {baseline optimized : String} {dataset : Option DatasetIdentity}
  {stamp : Stamp}

/-! ### Two runs on different entries -/

/-- A collection whose entries are told apart by their names, and by their keys as well. -/
structure Distinct (x : Collection) : Prop where
  /-- A name finds no more than one entry. -/
  names_nodup : (x.entries.map (·.implementation)).Nodup
  /-- No profile takes the place of another one. -/
  keys_nodup : (x.entries.map Entry.key).Nodup

/-- The keys under which profiles are listed are those of the entries. -/
theorem map_fst_profiles (entries : List (Entry Double)) :
    (entries.map fun e => (e.key, profileOf e)).map (·.1) = entries.map Entry.key := by
  rw [List.map_map]
  rfl

/-- A report takes the source, the two entries that it finds and the profiles, and nothing else. -/
theorem report_congr {y : Collection} (hsource : y.source = x.source)
    (hbaseline : y.find baseline = x.find baseline)
    (hoptimized : y.find optimized = x.find optimized) (hprofiles : y.profiles = x.profiles)
    (dataset : Option DatasetIdentity) (stamp : Stamp) :
    y.report baseline optimized dataset stamp = x.report baseline optimized dataset stamp := by
  -- The inputs take nothing but the source besides the two entries.
  have hinputs : ∀ b o d, y.inputs b o d = x.inputs b o d := by
    intro b o d
    unfold inputs sourceName
    rw [hsource]
  unfold report
  simp only [hbaseline, hoptimized, hprofiles, hinputs]

/-- **There is a report** of two entries that are found. -/
theorem report_of_find {b o : Entry Double} (hb : x.find baseline = .ok b)
    (ho : x.find optimized = .ok o) (dataset : Option DatasetIdentity) (stamp : Stamp) :
    x.report baseline optimized dataset stamp =
      .ok { Report.build (x.inputs b o (dataset.getD placeholder)) stamp with
        setup := { Report.setupOf (x.inputs b o (dataset.getD placeholder)) with
          processor := b.cores.getD 1 }
        profiles := some x.profiles } := by
  unfold report
  rw [hb, ho]
  rfl

/-- **A report depends on what it selects.** Let the entries of a collection be told apart by their
names and by their keys. In whatever order they stand, the report is the same, and if one of the two
implementations is not there, so is the fault. An entry with a new name and a new key, wherever it
is put, adds its own profile to the report and changes nothing else. -/
theorem report_of_selected (hx : x.Distinct) (baseline optimized : String)
    (dataset : Option DatasetIdentity) (stamp : Stamp) :
    (∀ entries : List (Entry Double), entries.Perm x.entries →
      { x with entries := entries }.report baseline optimized dataset stamp =
        x.report baseline optimized dataset stamp) ∧
    ∀ (before after : List (Entry Double)) (e b o : Entry Double), x.entries = before ++ after →
      e.implementation ∉ x.entries.map (·.implementation) → e.key ∉ x.entries.map Entry.key →
      x.find baseline = .ok b → x.find optimized = .ok o →
      ∃ r profiles, x.report baseline optimized dataset stamp = .ok r ∧
        r.profiles = some profiles ∧ profiles.find? e.key = none ∧
        { x with entries := before ++ e :: after }.report baseline optimized dataset stamp =
          .ok { r with profiles := some (profiles.insert e.key (profileOf e)) } := by
  constructor
  · -- Names and keys stay different, so the entries that are found and the profiles are the same.
    intro entries hperm
    have hnames := (hperm.map (·.implementation)).nodup_iff.mpr hx.names_nodup
    have hkeys := (hperm.map Entry.key).nodup_iff.mpr hx.keys_nodup
    apply report_congr
    · rfl
    · exact findEntry_perm hperm hnames baseline
    · exact findEntry_perm hperm hnames optimized
    · apply Keyed.ofList_perm (hperm.map _)
      rwa [map_fst_profiles]
  · intro before after e b o hsplit hname hkey hb ho
    -- The entries that are found have names of the collection, so the new entry is neither of them.
    have hother : ∀ name f, x.find name = .ok f →
        { x with entries := before ++ e :: after }.find name = .ok f := by
      intro name f hf
      have hmem : f ∈ x.entries := List.mem_of_find?_eq_some (findEntry_eq_ok.mp hf)
      have hne : e.implementation ≠ name := by
        rw [← implementation_of_findEntry hf]
        intro heq
        exact hname (heq ▸ List.mem_map_of_mem hmem)
      show findEntry (before ++ e :: after) name = .ok f
      rw [findEntry_cons_middle hne, ← hsplit]
      exact hf
    -- The key is new, so no entry behind it takes its place.
    have hafter : e.key ∉ after.map Entry.key := by
      intro hmem
      apply hkey
      rw [hsplit, List.map_append]
      exact List.mem_append_right _ hmem
    have hprofiles : { x with entries := before ++ e :: after }.profiles =
        x.profiles.insert e.key (profileOf e) := by
      unfold profiles
      rw [hsplit, List.map_append, List.map_append, List.map_cons]
      apply Keyed.ofList_cons_middle
      rwa [map_fst_profiles]
    refine ⟨_, x.profiles, report_of_find hb ho dataset stamp, rfl, ?_, ?_⟩
    · -- No profile of the collection has the key of the new entry.
      unfold profiles
      rw [Keyed.find?_ofList_map, Option.map_eq_none_iff, List.find?_eq_none]
      intro f hf heq
      apply hkey
      rw [← beq_iff_eq.mp heq]
      exact List.mem_map_of_mem (List.mem_reverse.mp hf)
    · rw [report_of_find (hother baseline b hb) (hother optimized o ho), hprofiles]
      rfl

/-- Figures of an implementation that takes so long. -/
def figuresOf (language implementation : String) (time : Double) : Entry Double where
  implementation := implementation
  language := language
  time := time
  load := ⟨0x4058800000000000⟩
  memory := ⟨0x405e000000000000⟩
  speedup := ⟨0x3ff0000000000000⟩
  cores := none

/-- Two implementations whose names have a slash. -/
def slashedRows : Collection where
  source := some "summary.json"
  entries := [figuresOf "python" "naive/plain" ⟨0x4097700000000000⟩,
    figuresOf "cpp" "simd/native" ⟨0x402e000000000000⟩]

/-- Slashes in names need not make two keys the same. -/
theorem distinct_slashedRows : slashedRows.Distinct := ⟨by decide, by decide⟩

/-- A third implementation, put between the two, adds its profile to their report. A report that
asks for an implementation that is not there fails alike in both orders. -/
theorem slashed_rows_with_third : ∃ r profiles,
    slashedRows.report "naive/plain" "simd/native" none .start = .ok r ∧
      r.profiles = some profiles ∧
      { slashedRows with entries := [figuresOf "python" "naive/plain" ⟨0x4097700000000000⟩,
          figuresOf "go" "plain" ⟨0x4059000000000000⟩,
          figuresOf "cpp" "simd/native" ⟨0x402e000000000000⟩] }.report
        "naive/plain" "simd/native" none .start =
          .ok { r with profiles := some (profiles.insert "go/plain"
            (profileOf (figuresOf "go" "plain" ⟨0x4059000000000000⟩))) } ∧
      { slashedRows with entries := slashedRows.entries.reverse }.report
          "naive/plain" "native" none .start =
        slashedRows.report "naive/plain" "native" none .start := by
  obtain ⟨-, hadd⟩ :=
    report_of_selected distinct_slashedRows "naive/plain" "simd/native" none .start
  obtain ⟨r, profiles, hr, hprofiles, -, hthird⟩ :=
    hadd [figuresOf "python" "naive/plain" ⟨0x4097700000000000⟩]
      [figuresOf "cpp" "simd/native" ⟨0x402e000000000000⟩]
      (figuresOf "go" "plain" ⟨0x4059000000000000⟩) _ _ rfl (by decide) (by decide) rfl rfl
  obtain ⟨hperm, -⟩ := report_of_selected distinct_slashedRows "naive/plain" "native" none .start
  exact ⟨r, profiles, hr, hprofiles, hthird, hperm _ (List.reverse_perm _)⟩

/-! ### Profiles of the entries that are compared -/

/-- The duration of a made profile is the time of its entry. -/
theorem duration_profileOf (e : Entry Double) : (profileOf e).summary.duration = e.time := rfl

/-- **Which profiles a report lists.** The samples of the two sides are made of the first entries
with their names, and the implementations of the report are those of these entries. There is one
profile for each key, and under a key stands the profile of the last entry with that key. So each
entry has a profile, and those under the keys of the two implementations are made of the entries
that are compared, exactly if no two entries share a key. -/
theorem profiles_of_report {r : Report}
    (h : x.report baseline optimized dataset stamp = .ok r) :
    ∃ b o profiles, x.find baseline = .ok b ∧ x.find optimized = .ok o ∧
      r.setup.implementations = [b.label, o.label] ∧
      r.baseline.durations = samplesOf b.time ∧ r.optimized.durations = samplesOf o.time ∧
      r.profiles = some profiles ∧
      profiles.keys.Perm (x.entries.map Entry.key).dedup ∧
      (∀ k, profiles.find? k = (x.entries.reverse.find? fun e => e.key == k).map profileOf) ∧
      (profiles.size = x.entries.length ∧ profiles.find? b.label.key = some (profileOf b) ∧
          profiles.find? o.label.key = some (profileOf o) ↔
        (x.entries.map Entry.key).Nodup) := by
  obtain ⟨b, o, hb, ho, rfl⟩ := report_eq_ok h
  have hkeys := Keyed.keys_ofList_perm (x.entries.map fun e => (e.key, profileOf e))
  have hsize := @Keyed.size_ofList_eq_length _ (x.entries.map fun e => (e.key, profileOf e))
  rw [map_fst_profiles] at hkeys hsize
  rw [List.length_map] at hsize
  refine ⟨b, o, x.profiles, hb, ho, rfl, rfl, rfl, rfl, hkeys, Keyed.find?_ofList_map _ _ _, ?_⟩
  constructor
  · -- As many profiles as entries are left only if no key is repeated.
    rintro ⟨hlength, -⟩
    exact hsize.mp hlength
  · intro hnodup
    -- Both entries are in the collection, and no other entry has their keys.
    have hown : ∀ name e, x.find name = .ok e →
        x.profiles.find? e.label.key = some (profileOf e) := by
      intro name e he
      apply (Keyed.find?_ofList_of_nodup (by rwa [map_fst_profiles])).mpr
      exact List.mem_map_of_mem (List.mem_of_find?_eq_some (findEntry_eq_ok.mp he))
    exact ⟨hsize.mpr hnodup, hown baseline b hb, hown optimized o ho⟩

/-- Each of two implementations whose names have a slash has its profile. -/
theorem slashed_rows_are_profiled : ∃ r profiles,
    slashedRows.report "naive/plain" "simd/native" none .start = .ok r ∧
      r.profiles = some profiles ∧ profiles.size = 2 ∧
      profiles.find? "python/naive/plain" =
        some (profileOf (figuresOf "python" "naive/plain" ⟨0x4097700000000000⟩)) := by
  have hreport := @report_of_find slashedRows "naive/plain" "simd/native" _ _ rfl rfl none .start
  obtain ⟨b, o, profiles, hb, -, -, -, -, hprofiles, -, -, hall⟩ := profiles_of_report hreport
  obtain ⟨hsize, hbaseline, -⟩ := hall.mpr distinct_slashedRows.keys_nodup
  obtain rfl : figuresOf "python" "naive/plain" ⟨0x4097700000000000⟩ = b := Except.ok.inj hb
  exact ⟨_, profiles, rfl, hprofiles, hsize, hbaseline⟩

/-- Two rows of one implementation, which took a hundred times as long in the first one. -/
def repeatedRows : Collection where
  source := none
  entries := [figuresOf "python" "naive" ⟨0x4097700000000000⟩,
    figuresOf "python" "naive" ⟨0x402e000000000000⟩]

/-- Of two rows under one key, the samples are made of the first one and the profile of the last
one, which is the only profile that is left. -/
theorem repeated_rows_are_mixed : ∃ r b profiles p,
    repeatedRows.report "naive" "naive" none .start = .ok r ∧
      repeatedRows.find "naive" = .ok b ∧ r.baseline.durations = samplesOf b.time ∧
      r.setup.implementations = [b.label, b.label] ∧
      r.profiles = some profiles ∧ profiles.size = 1 ∧ repeatedRows.entries.length = 2 ∧
      profiles.find? b.label.key = some p ∧ p.summary.duration ≠ b.time := by
  have hb : repeatedRows.find "naive" = .ok (figuresOf "python" "naive" ⟨0x4097700000000000⟩) := rfl
  refine ⟨_, _, repeatedRows.profiles, profileOf (figuresOf "python" "naive" ⟨0x402e000000000000⟩),
    report_of_find hb hb none .start, hb, rfl, rfl, rfl, ?_, rfl, ?_, ?_⟩
  · -- Both rows have one key, under which the later one stands.
    have hkeys := Keyed.keys_ofList_perm (repeatedRows.entries.map fun e => (e.key, profileOf e))
    rw [map_fst_profiles] at hkeys
    exact (List.length_map _).symm.trans hkeys.length_eq
  · exact Keyed.find?_ofList_map Entry.key profileOf _ _
  · rw [duration_profileOf]
    decide

end Collection

end PinnedBench
