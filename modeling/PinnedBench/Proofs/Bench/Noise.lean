import PinnedBench.Proofs.Bench.Preflight
import PinnedBench.Proofs.Bench.Readback

/-!
# Benchmarks with other noise

The time of a run is a base time and some noise, and the noise goes through the machine's logarithm
and cosine, of which nothing is known. So what depends on the times of an actual benchmark cannot be
evaluated. `Outcome.withNoise` keeps everything of an outcome but the noise of its runs, which is
left open: with the noise of the program it is the outcome of the program
(`Bench.withNoise_of_run`), and with none at all its numbers are the two base times
(`Bench.isFinite_figures_calm`).
-/

namespace PinnedBench

/-- **An outcome with other noise**: each run takes its base time and the noise that is given for
it. -/
def Outcome.withNoise (o : Outcome) (noise : Nat → Double) : Outcome :=
  o.map fun e => { e with
    durations := (List.range e.durations.length).map fun run =>
      Workload.baseTime e.implementation.variant + Workload.noiseTime * noise run }

/-- No noise at all. -/
def calm (_ : Nat) : Double := ((0 : Nat) : Double)

namespace Bench

/-- **The noise of the program** makes no difference to what it has measured. -/
theorem withNoise_of_run {x : Descriptor} {d : Path} {implementations : List Implementation}
    {c : Configuration} {o : Outcome} {w w' : Workbench}
    (h : runOn (run x d implementations c) w = (.ok o, w')) : o.withNoise Workload.noise = o := by
  have hmeasures := measures_of_run h
  -- A measurement takes as many times as there are runs, each from the noise of its number.
  have hsame : ∀ e ∈ o, { e with
      durations := (List.range e.durations.length).map fun run =>
        Workload.baseTime e.implementation.variant + Workload.noiseTime * Workload.noise run } =
      e := by
    intro e he
    have hdurations := hmeasures.durations_eq he
    have hlength : e.durations.length = c.runs.toNat := by
      rw [hdurations, Workload.durations, List.length_map, List.length_range]
    rw [hlength]
    exact congrArg (fun ds => { e with durations := ds }) hdurations.symm
  rw [Outcome.withNoise, List.map_congr_left hsame, List.map_id']

/-- What is measured without observing resources has no profile. -/
theorem profile_eq_none {c : Configuration} (hobserves : c.observes = false)
    (implementations : List Implementation) (w : Workbench) :
    ∀ e ∈ ((implementations.mapM (measure c) : StateM Workbench Outcome) w).1,
      e.profile = none := by
  have hmeasure : (measure c : Implementation → StateM Workbench Measurement) =
      fun i => pure ⟨i, Workload.durations i.variant c.runs, none⟩ := by
    funext i
    rw [measure, if_neg (by simp [hobserves])]
  rw [hmeasure, List.mapM_pure]
  intro e he
  obtain ⟨i, -, rfl⟩ := List.mem_map.mp he
  rfl

/-- **Without noise** and without profiles all numbers of an outcome are base times, so they are
finite. -/
theorem isFinite_figures_calm {o : Outcome} (hprofiles : ∀ e ∈ o, e.profile = none) :
    ∀ y ∈ (o.withNoise calm).figures, y.isFinite = true := by
  intro y hy
  obtain ⟨e', he', hy⟩ := List.mem_flatMap.mp hy
  obtain ⟨e, he, rfl⟩ := List.mem_map.mp he'
  rw [Measurement.figures, hprofiles e he, Option.map_none, Option.getD_none, List.append_nil] at hy
  obtain ⟨run, -, rfl⟩ := List.mem_map.mp hy
  -- There are only two base times.
  have hbases : (((1520 : Nat) : Double) + Workload.noiseTime * ((0 : Nat) : Double)).isFinite ∧
      (((1212 : Nat) : Double) + Workload.noiseTime * ((0 : Nat) : Double)).isFinite := by
    decide +kernel
  rw [calm, Workload.baseTime]
  split
  · exact hbases.1
  · exact hbases.2

end Bench

end PinnedBench
