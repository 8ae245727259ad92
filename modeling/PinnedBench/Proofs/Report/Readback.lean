import PinnedBench.Proofs.Bench.Readback
import PinnedBench.Report.Build

/-!
# Reports read back

A report is read back from its document exactly if all its numbers are finite and its evidence is
not too deep; any other document of a report is refused, so that no report is read as another one
(`Report.ofText_document`).

Each part of a report is read back from its tree under the condition that its own numbers are
finite. The parts without numbers are read back anyway. The evidence is free JSON that stands one
level down, so it has one level less than the document.
-/

namespace PinnedBench

open Json

/-! ### The comparison -/

namespace Statistics

/-- The numbers of statistics. -/
def figures (s : Statistics Double) : List Double :=
  [s.median, s.mean, s.deviation, s.variation, s.p10, s.p90]

/-- Statistics are read back if their numbers are finite. -/
theorem reads (s : Statistics Double) (levels : Nat) :
    ReadsWhen (∀ x ∈ s.figures, x.isFinite = true) (decode (levels + 1) s.toJson.tree) s := by
  have hreads (x : Double) := Decoder.reads_double x levels
  rw [decode, toJson, Tree.fields_object (by simp [fieldNames]) (by simp)]
  simp only [ReadsWhen.ok_bind, Fields.required, List.map_cons, List.lookup_cons,
    String.reduceBEq]
  refine ((hreads _).bind <| (hreads _).bind <| (hreads _).bind <| (hreads _).bind <|
    (hreads _).bind (hreads _).last).congr ?_
  simp [figures]

end Statistics

@[simp]
theorem Verdict.decode_tree (v : Verdict) (levels : Nat) :
    Decoder.variant named levels (Json.string v.word).tree = .ok v :=
  Decoder.variant_tree (by cases v <;> decide) levels

namespace Finding

/-- The numbers of a comparison. -/
def figures (x : Finding) : List Double :=
  x.comparison.baseline.figures ++ x.comparison.optimized.figures ++
    [x.comparison.delta, x.comparison.gain]

/-- A comparison is read back if the numbers of both sides and of the difference are finite. -/
theorem reads (x : Finding) (levels : Nat) :
    ReadsWhen (∀ y ∈ x.figures, y.isFinite = true) (decode (levels + 2) x.toJson.tree) x := by
  rw [decode, toJson, Tree.fields_object (by simp [fieldNames]) (by simp)]
  simp only [ReadsWhen.ok_bind, Fields.required, List.map_cons, List.lookup_cons,
    String.reduceBEq, Verdict.decode_tree, Decoder.string_tree]
  refine ((Statistics.reads _ levels).bind <| (Statistics.reads _ levels).bind <|
    (Decoder.reads_double _ _).bind (Decoder.reads_double _ _).last).congr ?_
  simp [figures, or_imp, forall_and]

end Finding

/-! ### The impact -/

namespace Rates

/-- The numbers of rates that are not whole numbers. -/
def figures (r : Rates Double) : List Double :=
  [r.costPerHour, r.electricityPerHour, r.co2PerKilowattHour]

/-- Constants are read back if they are finite; those that are whole numbers always are. -/
theorem reads (r : Rates Double) (levels : Nat) :
    ReadsWhen (∀ x ∈ r.figures, x.isFinite = true) (decode (levels + 1) r.toJson.tree) r := by
  have hreads (x : Double) := Decoder.reads_double x levels
  rw [decode, toJson, Tree.fields_object (by simp [fieldNames]) (by simp)]
  simp only [ReadsWhen.ok_bind, Fields.defaulted, List.map_cons, List.lookup_cons,
    String.reduceBEq, Decoder.word_tree, Decoder.string_tree]
  refine ((hreads _).bind <| (hreads _).bind (hreads _).last).congr ?_
  simp [figures]

end Rates

namespace Savings

/-- The numbers of savings. -/
def figures (s : Savings Double) : List Double := [s.hours, s.euros, s.kilowattHours, s.co2]

/-- Savings are read back if they are finite. -/
theorem reads (s : Savings Double) (levels : Nat) :
    ReadsWhen (∀ x ∈ s.figures, x.isFinite = true) (decode (levels + 1) s.toJson.tree) s := by
  have hreads (x : Double) := Decoder.reads_double x levels
  rw [decode, toJson, Tree.fields_object (by simp [fieldNames]) (by simp)]
  simp only [ReadsWhen.ok_bind, Fields.required, List.map_cons, List.lookup_cons,
    String.reduceBEq]
  refine ((hreads _).bind <| (hreads _).bind <| (hreads _).bind (hreads _).last).congr ?_
  simp [figures]

end Savings

namespace Impact

/-- The numbers of an impact. -/
def figures (x : Impact) : List Double := x.rates.figures ++ x.savings.figures

/-- An impact is read back if its constants and its savings are finite. -/
theorem reads (x : Impact) (levels : Nat) :
    ReadsWhen (∀ y ∈ x.figures, y.isFinite = true) (decode (levels + 2) x.toJson.tree) x := by
  rw [decode, toJson, Tree.fields_object (by simp [fieldNames]) (by simp)]
  simp only [ReadsWhen.ok_bind, Fields.required, List.map_cons, List.lookup_cons,
    String.reduceBEq]
  refine ((Rates.reads _ levels).bind (Savings.reads _ levels).last).congr ?_
  rw [figures, List.forall_mem_append]

end Impact

/-! ### Where, of what and how -/

theorem Machine.decode_tree (x : Machine) (levels : Nat) :
    decode (levels + 1) x.toJson.tree = .ok x := by
  rw [decode, toJson, Tree.fields_object (by simp [fieldNames]) (by simp)]
  simp [Fields.required, List.lookup_cons]

theorem DatasetIdentity.decode_tree (x : DatasetIdentity) (levels : Nat) :
    decode (levels + 1) x.toJson.tree = .ok x := by
  rw [decode, toJson, Tree.fields_object (by simp [fieldNames]) (by simp)]
  simp [Fields.required, List.lookup_cons]

/-- A provenance is read back, with a commit or without one. -/
theorem Provenance.decode_tree (x : Provenance) (levels : Nat) :
    decode (levels + 2) x.toJson.tree = .ok x := by
  have hcommit : Decoder.orNull .string (levels + 1) (ofOption .string x.commit).tree =
      .ok x.commit :=
    Decoder.orNull_tree fun s _ => ⟨by simp [tree], by simp⟩
  rw [decode, toJson, Tree.fields_object (by simp [fieldNames]) (by simp)]
  simp [Fields.required, Fields.nullable, List.lookup_cons, hcommit, Machine.decode_tree,
    DatasetIdentity.decode_tree]

theorem Implementation.decode_tree (i : Implementation) (levels : Nat) :
    decode (levels + 1) i.toJson.tree = .ok i := by
  rw [decode, toJson, Tree.fields_object (by simp [fieldNames]) (by simp)]
  simp [Fields.required, List.lookup_cons]

/-- What was done to let the machine settle is read back if it was waited for a finite time. -/
theorem Settling.reads (x : Settling) (levels : Nat) :
    ReadsWhen (x.waited.isFinite = true) (decode (levels + 1) x.toJson.tree) x := by
  rw [decode, toJson, Tree.fields_object (by simp [fieldNames]) (by simp)]
  simp only [ReadsWhen.ok_bind, Fields.required, List.map_cons, List.lookup_cons,
    String.reduceBEq, Decoder.boolean_tree, Decoder.string_tree]
  exact (Decoder.reads_double _ levels).last

namespace Setup

/-- Settings of the environment are read back, whatever their names are. -/
theorem decodeEnvironment_tree (settings : Keyed String) (levels : Nat) :
    decodeEnvironment (levels + 2) (environmentJson settings).tree = .ok settings := by
  have hsettings : Decoder.keyed .string (levels + 1) (ofKeyed .string settings).tree =
      .ok settings :=
    Decoder.keyed_tree fun _ _ => Decoder.string_tree _ _
  rw [decodeEnvironment, environmentJson, Tree.fields_object (by simp) (by simp)]
  simp [Fields.required, hsettings]

/-- A setup is read back if the machine was left alone for a finite time. -/
theorem reads (x : Setup) (levels : Nat) :
    ReadsWhen (x.settling.waited.isFinite = true) (decode (levels + 3) x.toJson.tree) x := by
  have himplementations : Decoder.list Implementation.decode (levels + 2)
      (Json.array (x.implementations.map Implementation.toJson)).tree = .ok x.implementations :=
    Decoder.list_tree fun i _ => i.decode_tree levels
  rw [decode, toJson, Tree.fields_object (by simp [fieldNames]) (by simp)]
  simp only [ReadsWhen.ok_bind, Fields.required, List.map_cons, List.lookup_cons,
    String.reduceBEq, Decoder.string_tree, Decoder.halfWord_tree, decodeEnvironment_tree,
    himplementations]
  exact (Settling.reads _ _).last

end Setup

/-! ### The runs -/

@[simp]
theorem RunStatus.decode_tree (s : RunStatus) (levels : Nat) :
    Decoder.variant named levels (Json.string s.word).tree = .ok s :=
  Decoder.variant_tree (by cases s <;> decide) levels

theorem RunFailure.decode_tree (x : RunFailure) (levels : Nat) :
    decode (levels + 1) x.toJson.tree = .ok x := by
  rw [decode, toJson, Tree.fields_object (by simp [fieldNames]) (by simp)]
  simp [Fields.required, List.lookup_cons]

/-- A record of runs is read back if its durations are finite. -/
theorem RunRecord.reads (x : RunRecord) (levels : Nat) :
    ReadsWhen (∀ d ∈ x.durations, d.isFinite = true) (decode (levels + 3) x.toJson.tree) x := by
  have hstatus : Decoder.list (.variant RunStatus.named) (levels + 2)
      (Json.array (x.status.map fun s => .string s.word)).tree = .ok x.status :=
    Decoder.list_tree fun s _ => s.decode_tree _
  have hfailures : Decoder.list RunFailure.decode (levels + 2)
      (Json.array (x.failures.map RunFailure.toJson)).tree = .ok x.failures :=
    Decoder.list_tree fun f _ => f.decode_tree levels
  rw [decode, toJson, Tree.fields_object (by simp [fieldNames]) (by simp)]
  simp only [ReadsWhen.ok_bind, Fields.required, List.map_cons, List.lookup_cons,
    String.reduceBEq, Decoder.string_tree, hstatus, hfailures]
  exact (Decoder.reads_doubles _ _).last

/-- The places of artifacts are read back. -/
theorem Artifacts.decode_tree (x : Artifacts) (levels : Nat) :
    decode (levels + 1) x.toJson.tree = .ok x := by
  rw [decode, toJson, Tree.fields_object (by simp [fieldNames]) (by simp)]
  simp [Fields.required, List.lookup_cons]

/-! ### Reports -/

namespace Report

/-- The numbers of the profiles of a report. -/
def profileFigures (r : Report) : List Double :=
  match r.profiles with
  | none => []
  | some profiles => profiles.entries.flatMap fun e => e.2.figures

/-- **The numbers of a report**, its free values apart. -/
def figures (r : Report) : List Double :=
  r.setup.settling.waited :: (r.baseline.durations ++ r.optimized.durations ++
    r.finding.figures ++ r.impact.figures ++ r.profileFigures)

/-- Both sides are read back if the durations of both are finite. -/
theorem reads_runs (baseline optimized : RunRecord) (levels : Nat) :
    ReadsWhen ((∀ d ∈ baseline.durations, d.isFinite = true) ∧
        ∀ d ∈ optimized.durations, d.isFinite = true)
      (decodeRuns (levels + 4) (runsJson baseline optimized).tree) (baseline, optimized) := by
  rw [decodeRuns, runsJson, Tree.fields_object (by simp) (by simp)]
  simp only [ReadsWhen.ok_bind, Fields.required, List.map_cons, List.lookup_cons,
    String.reduceBEq]
  exact (RunRecord.reads _ _).bind (RunRecord.reads _ _).last

/-- **A report** is read back from its tree if its numbers are finite and its evidence is read. -/
theorem reads {r : Report} {q : Prop} {evidence : Json} {levels : Nat}
    (hevidence : ReadsWhen q (ofTree (levels + 4) r.evidence.tree) evidence) :
    ReadsWhen ((∀ x ∈ r.figures, x.isFinite = true) ∧ q) (decode (levels + 5) r.toJson.tree)
      { r with evidence := evidence } := by
  obtain ⟨schema, provenance, setup, baseline, optimized, finding, supplied, impact, artifacts,
    profiles⟩ := r
  simp only [figures, List.forall_mem_cons, List.forall_mem_append]
  have hsetup := setup.reads (levels + 1)
  have hruns := reads_runs baseline optimized levels
  have hfinding := finding.reads (levels + 2)
  have himpact := impact.reads (levels + 2)
  rw [decode, toJson]
  cases profiles with
  | none =>
    -- Where no profiles are written, none are read.
    rw [Tree.fields_object (by simp [profilesField, fieldNames]) (by simp [profilesField])]
    simp only [ReadsWhen.ok_bind, Fields.required, Fields.defaulted, profilesField,
      List.append_nil, List.map_cons, List.map_nil, List.lookup_cons, List.lookup_nil,
      String.reduceBEq, Decoder.string_tree, Provenance.decode_tree, Artifacts.decode_tree,
      Decoder.any]
    refine (hsetup.bind <| hruns.bind <| hfinding.bind <| hevidence.bind himpact.last).congr ?_
    simp only [profileFigures, List.not_mem_nil, false_implies, implies_true]
    tauto
  | some profiles =>
    -- No map is written as nothing, so those that are written are read as a map.
    have hprofiles : ReadsWhen (∀ e ∈ profiles.entries, ∀ x ∈ e.2.figures, x.isFinite = true)
        (Decoder.orNull (.keyed Profile.decode) (levels + 4) (ofKeyed Profile.toJson profiles).tree)
        (some profiles) := by
      have hentries : ∀ e ∈ profiles.entries, ReadsWhen (∀ x ∈ e.2.figures, x.isFinite = true)
          (Profile.decode (levels + 3) e.2.toJson.tree) e.2 := fun e _ => e.2.reads levels
      have hkeyed := Decoder.reads_keyed
        (p := fun profile : Profile Double => ∀ x ∈ profile.figures, x.isFinite = true) hentries
      exact Decoder.reads_orNull hkeyed (by simp [ofKeyed, tree])
    rw [Tree.fields_object (by simp [profilesField, fieldNames]) (by simp [profilesField])]
    simp only [ReadsWhen.ok_bind, Fields.required, Fields.defaulted, profilesField,
      List.cons_append, List.nil_append, List.map_cons, List.map_nil, List.lookup_cons,
      String.reduceBEq, Decoder.string_tree, Provenance.decode_tree, Artifacts.decode_tree,
      Decoder.any]
    refine (hsetup.bind <| hruns.bind <| hfinding.bind <| hevidence.bind <| himpact.bind
      hprofiles.last).congr ?_
    have hfigures : (∀ e ∈ profiles.entries, ∀ x ∈ e.2.figures, x.isFinite = true) ↔
        ∀ x ∈ profiles.entries.flatMap fun e => e.2.figures, x.isFinite = true := by
      rw [List.forall_mem_flatMap]
    simp only [profileFigures, hfigures]
    tauto

/-- A report is readable if its numbers are finite and its evidence leaves a level for the report.
-/
structure Readable (r : Report) : Prop where
  /-- All numbers are finite. -/
  finite : ∀ x ∈ r.figures, x.isFinite = true
  /-- The evidence is not too deep. -/
  shallow : r.evidence.depth ≤ 126

/-- Readable reports, as the condition that reading asks for. -/
theorem readable_iff {r : Report} :
    r.Readable ↔ (∀ x ∈ r.figures, x.isFinite = true) ∧ r.evidence.depth ≤ 126 :=
  ⟨fun h => ⟨h.finite, h.shallow⟩, fun h => ⟨h.1, h.2⟩⟩

/-- A report whose evidence is as a value is held is read back exactly if it is readable. -/
theorem readsWhen_readable {r : Report} (hevidence : r.evidence.Proper) :
    ReadsWhen r.Readable (ofText r.document) r := by
  rw [ofText, document, decodeText_pretty]
  exact ((reads (hevidence.reads 126)).mapError _).congr readable_iff.symm

/-- Whatever its evidence is, a report that is read again has nothing else changed. -/
theorem eq_of_ofText_document {r r' : Report} (h : ofText r.document = .ok r') :
    ∃ evidence, r' = { r with evidence := evidence } := by
  have hreads {q : Prop} {evidence : Json}
      (hevidence : ReadsWhen q (ofTree (122 + 4) r.evidence.tree) evidence) :
      ReadsWhen ((∀ x ∈ r.figures, x.isFinite = true) ∧ q) (ofText r.document)
        { r with evidence := evidence } := by
    rw [ofText, document, decodeText_pretty]
    exact (reads hevidence).mapError _
  cases hevidence : ofTree (122 + 4) r.evidence.tree with
  | ok evidence => exact ⟨evidence, (hreads (.of_ok hevidence)).eq_of_ok h⟩
  | error e =>
    -- Where the evidence is not read, the report is not read either.
    have hnone : ReadsWhen False (ofTree (122 + 4) r.evidence.tree) r.evidence :=
      ⟨False.elim, fun hok => by rw [hevidence] at hok; cases hok⟩
    exact ((hreads hnone).holds h).2.elim

/-- Texts that are refused are refused as malformed. -/
theorem ofText_eq_error {text : String} {e : PinnedBench.Fault} (h : ofText text = .error e) :
    ∃ reason, e = .document "report" reason := by
  unfold ofText at h
  cases hdecode : decodeText decode text with
  | ok r =>
    rw [hdecode] at h
    cases h
  | error reason =>
    rw [hdecode] at h
    exact ⟨reason.message, (Except.error.inj h).symm⟩

/-- **The document of a report** is read as the report exactly if the report is readable, and is
refused as malformed if it is not. -/
theorem ofText_document {r : Report} (hevidence : r.evidence.Proper) :
    (ofText r.document = .ok r ↔ r.Readable) ∧
      (¬r.Readable → ∃ reason, ofText r.document = .error (.document "report" reason)) := by
  have hreads := readsWhen_readable hevidence
  constructor
  · exact hreads.eq_ok_iff
  · intro hnot
    obtain ⟨e, he⟩ := hreads.eq_error hnot
    obtain ⟨reason, rfl⟩ := ofText_eq_error he
    exact ⟨reason, he⟩

end Report

/-! ### A small report -/

/-- What stands for missing evidence is as a value is held. -/
theorem proper_noEvidence : noEvidence.Proper := by
  refine .object (fun m hm => ?_) (List.pairwise_singleton _ _)
  rw [List.mem_singleton.mp hm]
  exact .boolean false

/-- The inputs of a report on two runs. -/
def Inputs.small (waited : Double) : Inputs :=
  .of { RunSummary.empty with
    baseline := [((2 : Nat) : Double)]
    optimized := [((1 : Nat) : Double)]
    waited := some waited } ⟨"a", 1, 1, 1, 0⟩ ⟨"python", "naive"⟩ ⟨"python", "numpy"⟩

/-- The start of the epoch, on a machine that nothing is known of. -/
def Stamp.start : Stamp := ⟨⟨0, 0⟩, .ofTexts [] none none, none⟩

/-- A small report is read back, but not if the machine was left alone forever. -/
theorem small_report_is_read_back :
    Report.ofText (Report.build (.small ((0 : Nat) : Double)) .start).document =
        .ok (Report.build (.small ((0 : Nat) : Double)) .start) ∧
      ∃ reason, Report.ofText (Report.build (.small .infinity) .start).document =
        .error (.document "report" reason) := by
  have hfinite : (Report.build (.small ((0 : Nat) : Double)) .start).Readable :=
    ⟨by decide +kernel, by decide⟩
  have hinfinite : ¬(Report.build (.small .infinity) .start).Readable := by
    intro h
    exact absurd (h.finite .infinity List.mem_cons_self) (by decide)
  exact ⟨(Report.ofText_document proper_noEvidence).1.mpr hfinite,
    (Report.ofText_document proper_noEvidence).2 hinfinite⟩

end PinnedBench
