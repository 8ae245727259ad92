import PinnedBench.Proofs.Bench.Summaries
import PinnedBench.Proofs.Json.Readings

/-!
# Summaries read back

The summary of an outcome is read back from its document field by field
(`RunSummary.ofText_of`). All texts, words and free values in it come back without conditions. Its
numbers come back if they are finite and read back from what is printed of them
(`Double.ReadsBack`), as every number does (`Double.readsBack`). A number that is not finite is
written as nothing.

Profiles are written under the keys of the implementations and left out if there are none; both come
back as they were, since entries stand in the order of their keys.
-/

namespace PinnedBench

/-! ### Numbers -/

namespace Double

/-- **A number reads back** if, being finite, it is read again from the document that holds it and
from the text of a duration in a results table. -/
def ReadsBack (x : Double) : Prop :=
  x.isFinite = true →
    Json.decodeText .double (Json.real x).pretty = .ok x ∧
      readReal (NumberStyle.table.chars x) = .ok x

instance (x : Double) : Decidable x.ReadsBack :=
  inferInstanceAs (Decidable (x.isFinite = true →
    Json.decodeText .double (Json.real x).pretty = .ok x ∧
      readReal (NumberStyle.table.chars x) = .ok x))

/-- A finite number that reads back. -/
structure Kept (x : Double) : Prop where
  /-- It is a number that a document can hold, -/
  finite : x.isFinite = true
  /-- and reading gives it back. -/
  readsBack : x.ReadsBack

/-- **Every number** reads back. -/
theorem readsBack (x : Double) : x.ReadsBack := by
  intro hfinite
  constructor
  · rw [Json.decodeText_pretty, Json.tree, if_pos hfinite]
    exact toDouble_numeral hfinite
  · exact readReal_chars (isUndefined_of_isFinite hfinite)

end Double

namespace Json

/-- What is written of a number, or nothing, is a value that reading gives. -/
theorem ofTree_ofDouble (x : Double) (levels : Nat) :
    ofTree levels (ofDouble x).tree = .ok (ofDouble x) := by
  rw [ofDouble]
  split
  · exact ofTree_real ‹_› levels
  · rw [tree, ofTree]

/-- A word of 32 bits is a value that reading gives. -/
theorem ofTree_ofHalfWord (n : UInt32) (levels : Nat) :
    ofTree levels (ofHalfWord n).tree = .ok (ofHalfWord n) :=
  ofTree_ofWord n.toUInt64 levels

/-- Nothing is written as `null`, which reading gives too. -/
theorem ofTree_ofOption {α : Type} {f : α → Json} {levels : Nat} {o : Option α}
    (h : ∀ a ∈ o, ofTree levels (f a).tree = .ok (f a)) :
    ofTree levels (ofOption f o).tree = .ok (ofOption f o) := by
  cases o with
  | none => rw [ofOption, tree, ofTree]
  | some a => exact h a rfl

end Json

/-! ### Profiles -/

namespace Summary

/-- The numbers of a summary. -/
def figures (s : Summary Double) : List Double :=
  [s.cpuAverage, s.cpuPeak, s.ramAverage, s.ramPeak, s.diskTotal, s.gpuAverage, s.duration]

/-- **The summary of a profile** is read back from its tree if its numbers are finite. -/
theorem reads (s : Summary Double) (levels : Nat) :
    ReadsWhen (∀ x ∈ s.figures, x.isFinite = true) (decode (levels + 1) s.toJson.tree) s := by
  have hreads (x : Double) := Json.Decoder.reads_double x levels
  rw [decode, toJson, Json.Tree.fields_object (by simp [fieldNames]) (by simp)]
  -- Every member is required and is found under its name; then its number is read.
  simp only [ReadsWhen.ok_bind, Json.Fields.required, List.map_cons, List.lookup_cons,
    String.reduceBEq, Json.Decoder.word_tree]
  refine ((hreads _).bind <| (hreads _).bind <| (hreads _).bind <| (hreads _).bind <|
    (hreads _).bind <| (hreads _).bind (hreads _).last).congr ?_
  simp [figures]

end Summary

namespace Curve

/-- The numbers of a curve. -/
def figures (c : Curve Double) : List Double := c.times ++ c.cpu ++ c.ram ++ c.disk ++ c.gpu

/-- **A curve** is read back from its tree if its numbers are finite. -/
theorem reads (c : Curve Double) (levels : Nat) :
    ReadsWhen (∀ x ∈ c.figures, x.isFinite = true) (decode (levels + 2) c.toJson.tree) c := by
  rw [decode, toJson, Json.Tree.fields_object (by simp [fieldNames]) (by simp)]
  simp only [ReadsWhen.ok_bind, Json.Fields.required, List.map_cons, List.lookup_cons,
    String.reduceBEq]
  have hreads (xs : List Double) := Json.Decoder.reads_doubles xs levels
  refine ((hreads _).bind <| (hreads _).bind <| (hreads _).bind <| (hreads _).bind
    (hreads _).last).congr ?_
  simp only [figures, List.forall_mem_append, and_assoc]

end Curve

namespace Profile

/-- The numbers of a profile. -/
def figures (p : Profile Double) : List Double := p.summary.figures ++ p.curve.figures

/-- **A profile** is read back from its tree if its numbers are finite. -/
theorem reads (p : Profile Double) (levels : Nat) :
    ReadsWhen (∀ x ∈ p.figures, x.isFinite = true) (decode (levels + 3) p.toJson.tree) p := by
  rw [decode, toJson, Json.Tree.fields_object (by simp [fieldNames]) (by simp)]
  simp only [ReadsWhen.ok_bind, Json.Fields.required, List.map_cons, List.lookup_cons,
    String.reduceBEq]
  refine ((Summary.reads _ _).bind (Curve.reads _ levels).last).congr ?_
  rw [figures, List.forall_mem_append]

end Profile

/-! ### Configurations as free values -/

namespace Configuration

/-- A configuration with its fields in the order of their names. -/
theorem sorted_toJson (c : Configuration) :
    c.toJson.sorted = .object [("cpu_affinity", .ofOption .ofHalfWord c.processor),
      ("ebpf_agent", .ofOption .string c.agent), ("enforce_single_thread", .boolean c.singleThread),
      ("profile_resources", .boolean c.observes), ("repeat", .ofHalfWord c.repetitions),
      ("runs", .ofHalfWord c.runs), ("stability_enabled", .boolean c.settles),
      ("stability_mode", .string c.mode.word), ("waited_seconds", .ofDouble c.waited),
      ("warmup", .ofHalfWord c.warmup)] := by
  -- Only objects are sorted, and no field holds one.
  have hwaited : (Json.ofDouble c.waited).sorted = Json.ofDouble c.waited := by
    rw [Json.ofDouble]
    split <;> rfl
  have hprocessor : (Json.ofOption .ofHalfWord c.processor).sorted =
      Json.ofOption .ofHalfWord c.processor := by
    cases c.processor <;> rfl
  have hagent : (Json.ofOption .string c.agent).sorted = Json.ofOption .string c.agent := by
    cases c.agent <;> rfl
  rw [← hwaited, ← hprocessor, ← hagent]
  rfl

/-- **A configuration that is kept as a free value** is read back. -/
theorem ofTree_sorted (c : Configuration) (levels : Nat) :
    Json.ofTree (levels + 1) c.toJson.sorted.tree = .ok c.toJson.sorted := by
  have hprocessor : Json.ofTree levels (Json.ofOption .ofHalfWord c.processor).tree =
      .ok (.ofOption .ofHalfWord c.processor) :=
    Json.ofTree_ofOption fun n _ => Json.ofTree_ofHalfWord n levels
  have hagent : Json.ofTree levels (Json.ofOption .string c.agent).tree =
      .ok (.ofOption .string c.agent) :=
    Json.ofTree_ofOption fun s _ => Json.ofTree_string s levels
  have hboolean : ∀ b, Json.ofTree levels (Json.boolean b).tree = .ok (.boolean b) := fun b => by
    rw [Json.tree, Json.ofTree]
  -- The members stand in the order of their names, in which reading puts them.
  have hnames : ["cpu_affinity", "ebpf_agent", "enforce_single_thread", "profile_resources",
      "repeat", "runs", "stability_enabled", "stability_mode", "waited_seconds",
      "warmup"].Pairwise (· < ·) := by decide
  rw [sorted_toJson]
  refine Json.ofTree_object ?_ (List.pairwise_map.mp hnames)
  simp only [List.forall_mem_cons, hprocessor, hagent, hboolean, Json.ofTree_ofHalfWord,
    Json.ofTree_string, Json.ofTree_ofDouble, true_and]
  simp

end Configuration

/-! ### Summaries -/

/-- The numbers of a measurement. -/
def Measurement.figures (e : Measurement) : List Double :=
  e.durations ++ (e.profile.map Profile.figures).getD []

/-- The numbers of an outcome. -/
def Outcome.figures (o : Outcome) : List Double := o.flatMap Measurement.figures

namespace RunSummary

/-- **A summary** is read back from its tree if its free values are and its numbers are finite. -/
theorem decode_tree {s : RunSummary} {levels : Nat}
    (hdataset : ∀ j ∈ s.dataset, j.tree ≠ .null ∧ Json.ofTree (levels + 4) j.tree = .ok j)
    (hconfiguration : ∀ j ∈ s.configuration,
      j.tree ≠ .null ∧ Json.ofTree (levels + 4) j.tree = .ok j)
    (hbaseline : ∀ x ∈ s.baseline, x.isFinite = true)
    (hoptimized : ∀ x ∈ s.optimized, x.isFinite = true)
    (hwaited : ∀ x ∈ s.waited, x.isFinite = true)
    (hprofiles : ∀ e ∈ s.profiles.entries, ∀ x ∈ e.2.figures, x.isFinite = true) :
    decode (levels + 5) s.toJson.tree = .ok s := by
  -- Each kind of field is read back, where there is nothing as well as where there is a value.
  have hfree : ∀ free : Option Json,
      (∀ j ∈ free, j.tree ≠ .null ∧ Json.ofTree (levels + 4) j.tree = .ok j) →
        Json.Decoder.orNull .any (levels + 4) (Json.ofOption id free).tree = .ok free := fun _ h =>
    Json.Decoder.orNull_tree h
  have hword : ∀ n : Option UInt32,
      Json.Decoder.orNull .halfWord (levels + 4) (Json.ofOption .ofHalfWord n).tree = .ok n :=
    fun _ => Json.Decoder.orNull_tree fun n _ => ⟨by simp [Json.ofHalfWord, Json.tree], by simp⟩
  have hsettles : Json.Decoder.orNull .boolean (levels + 4)
      (Json.ofOption .boolean s.settles).tree = .ok s.settles :=
    Json.Decoder.orNull_tree fun b _ => ⟨by simp [Json.tree], by simp⟩
  have hmode : Json.Decoder.orNull .string (levels + 4)
      (Json.ofOption .string s.mode).tree = .ok s.mode :=
    Json.Decoder.orNull_tree fun t _ => ⟨by simp [Json.tree], by simp⟩
  have hseconds : Json.Decoder.orNull .double (levels + 4)
      (Json.ofOption .ofDouble s.waited).tree = .ok s.waited :=
    Json.Decoder.orNull_tree fun x hx =>
      ⟨by simp [Json.ofDouble, Json.tree, hwaited x hx],
        (Json.Decoder.reads_double x _).eq_ok (hwaited x hx)⟩
  have hkeyed : Json.Decoder.keyed Profile.decode (levels + 4)
      (Json.ofKeyed Profile.toJson s.profiles).tree = .ok s.profiles :=
    Json.Decoder.keyed_tree fun e he => (e.2.reads levels).eq_ok (hprofiles e he)
  have hdurations := fun xs hxs => (Json.Decoder.reads_doubles xs (levels + 3)).eq_ok hxs
  rw [decode, toJson]
  by_cases hempty : s.profiles.isEmpty = true
  · -- No profiles are read where none are written.
    have hnone : Keyed.empty = s.profiles := Keyed.ext (List.isEmpty_iff.mp hempty).symm
    rw [if_pos hempty, Json.Tree.fields_object (by simp [fieldNames]) (by simp)]
    simp [bind, Except.bind, Json.Fields.defaulted, List.lookup_cons, hfree _ hdataset,
      hfree _ hconfiguration, hword, hsettles, hmode, hseconds,
      hdurations _ hbaseline, hdurations _ hoptimized, hnone]
  · -- The profiles are written like any other field.
    rw [if_neg hempty, Json.Tree.fields_object (by simp [fieldNames]) (by simp)]
    simp [bind, Except.bind, Json.Fields.defaulted, List.lookup_cons, hfree _ hdataset,
      hfree _ hconfiguration, hword, hsettles, hmode, hseconds,
      hdurations _ hbaseline, hdurations _ hoptimized, hkeyed]

/-- The durations of a side are among the numbers of the outcome. -/
theorem mem_figures_of_mem_durationsOf {o : Outcome} {side : Option Measurement}
    (hside : ∀ e ∈ side, e ∈ o) {x : Double} (hx : x ∈ durationsOf side) : x ∈ o.figures := by
  cases side with
  | none => simp [durationsOf] at hx
  | some e => exact List.mem_flatMap.mpr ⟨e, hside e rfl, List.mem_append_left _ hx⟩

/-- The numbers of the profiles are among those of the outcome. -/
theorem mem_figures_of_mem_profilesOf {o : Outcome} {e : String × Profile Double}
    (he : e ∈ (profilesOf o).entries) {x : Double} (hx : x ∈ e.2.figures) : x ∈ o.figures := by
  -- A profile in the summary is that of a measurement, as keying makes up no value.
  obtain ⟨measurement, hmem, hprofile⟩ := List.mem_filterMap.mp (Keyed.mem_of_mem_ofList he)
  obtain ⟨p, hp, rfl⟩ := Option.map_eq_some_iff.mp hprofile
  refine List.mem_flatMap.mpr ⟨measurement, hmem, List.mem_append_right _ ?_⟩
  rw [hp]
  exact hx

/-- **The summary of an outcome** is read back from its document. -/
theorem ofText_of {o : Outcome} {c : Configuration} (hfigures : ∀ x ∈ o.figures, x.Kept)
    (hwaited : c.waited.Kept) (x : Descriptor) : ofText (of o x c).document = .ok (of o x c) := by
  have hbaseline : ∀ e ∈ o.baseline, e ∈ o := fun e he => List.mem_of_mem_head? he
  have hoptimized : ∀ e ∈ o.optimized, e ∈ o := by
    intro e he
    rw [Outcome.optimized, Option.mem_def, Option.or_eq_some_iff] at he
    -- The optimized side is the second measurement, or the first one where there is no second.
    rcases he with he | ⟨-, he⟩
    · exact List.mem_of_getElem? he
    · exact List.mem_of_mem_head? he
  -- The reader has enough levels left for the deepest values, which are those of the profiles.
  have htree : decode 127 (of o x c).toJson.tree = .ok (of o x c) := by
    refine @decode_tree (of o x c) 122 ?_ ?_ ?_ ?_ ?_ ?_
    · rintro j ⟨⟩
      exact ⟨by simp [Descriptor.sorted_toJson, Json.tree], x.ofTree_sorted 124⟩
    · rintro j ⟨⟩
      exact ⟨by simp [Configuration.sorted_toJson, Json.tree],
        c.ofTree_sorted 125⟩
    · exact fun y hy => (hfigures y (mem_figures_of_mem_durationsOf hbaseline hy)).finite
    · exact fun y hy => (hfigures y (mem_figures_of_mem_durationsOf hoptimized hy)).finite
    · rintro y ⟨⟩
      exact hwaited.finite
    · exact fun e he y hy => (hfigures y (mem_figures_of_mem_profilesOf he hy)).finite
  rw [ofText, document, Json.decodeText_pretty]
  exact mapError_eq_ok.mpr htree

/-- A reader of a summary reads the durations that it was written with. -/
theorem durations_of_decode {t s : RunSummary} {levels : Nat}
    (h : decode (levels + 2) t.toJson.tree = .ok s) :
    s.baseline = t.baseline ∧ s.optimized = t.optimized := by
  obtain ⟨members, hmembers, hnames, hnodup, -, hlookup, hlookup'⟩ := t.toJson_eq
  rw [decode, hmembers, Json.Tree.fields_object hnames hnodup] at h
  obtain ⟨f, hf, h⟩ := bind_eq_ok.mp h
  obtain rfl := Except.ok.inj hf
  -- Two fields are read before the durations.
  iterate 2 obtain ⟨_, -, h⟩ := bind_eq_ok.mp h
  obtain ⟨baseline, hbaseline, h⟩ := bind_eq_ok.mp h
  obtain ⟨optimized, hoptimized, h⟩ := bind_eq_ok.mp h
  -- The fields behind the durations do not matter.
  iterate 8 obtain ⟨_, -, h⟩ := bind_eq_ok.mp h
  rw [Json.Fields.defaulted_of_lookup hlookup] at hbaseline
  rw [Json.Fields.defaulted_of_lookup hlookup'] at hoptimized
  rw [← Except.ok.inj h]
  exact ⟨(Json.Decoder.reads_doubles _ levels).eq_of_ok hbaseline,
    (Json.Decoder.reads_doubles _ levels).eq_of_ok hoptimized⟩

/-- **A summary that is read** has the durations of the outcome that it was written for. -/
theorem durations_of_ofText {o : Outcome} {x : Descriptor} {c : Configuration} {s : RunSummary}
    (h : ofText (of o x c).document = .ok s) :
    s.baseline = durationsOf o.baseline ∧ s.optimized = durationsOf o.optimized := by
  rw [ofText, document, Json.decodeText_pretty] at h
  exact durations_of_decode (mapError_eq_ok.mp h)

end RunSummary

end PinnedBench
