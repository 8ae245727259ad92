import Mathlib.Data.List.Basic
import Mathlib.Data.List.Count
import PinnedBench.Profile.Handover

/-!
# What the owner takes over

The sampler and its owner move one after the other in any order, and nothing bounds how often a wait
runs out before the signal is there. This module says what the owner has in the end, whatever the
order was.

`Happens` lists what a move can do, one constructor for each way, and `step_eq_some` says that the
step does nothing else. Three things are carried along a run:

* `Recorded`: the calls are the readings kept and at most one more, and the readings kept are what
  the probe answered from the first call on.
* `Exchanged`: the signal was given exactly if it is in the box or has ended the sampler, and the
  owner takes over what an ended sampler has kept.
* `callsLeft` and `movesLeft`, which drop with every move once the signal is given.

`handover_of_run` puts them together. How long the sampler waits is of no matter there: a wait may
run out at any moment at which no signal is in the box.
-/

namespace PinnedBench

/-- How many calls of the probe have no reading among those kept. -/
def SamplerPhase.unanswered : SamplerPhase → Nat
  | .calling | .failed => 1
  | .ready | .waiting | .ended => 0

/-- How many calls the sampler still makes once the signal is given. -/
def SamplerPhase.callsLeft : SamplerPhase → Nat
  | .ready => 1
  | .calling | .waiting | .ended | .failed => 0

/-- How many moves the sampler still makes once the signal is given. -/
def SamplerPhase.movesLeft : SamplerPhase → Nat
  | .ready => 3
  | .calling => 2
  | .waiting => 1
  | .ended | .failed => 0

/-- At most one call is left, in whichever phase the signal is given. -/
theorem SamplerPhase.callsLeft_le (phase : SamplerPhase) : phase.callsLeft ≤ 1 := by
  cases phase <;> decide

theorem SamplerPhase.movesLeft_le (phase : SamplerPhase) : phase.movesLeft ≤ 3 := by
  cases phase <;> decide

namespace OwnerPhase

variable {β ρ : Type}

/-- Whether the owner has given the signal. -/
def given : OwnerPhase β ρ → Bool
  | .working | .finished _ => false
  | .leaving _ | .done _ _ => true

/-- The value of the work, once it is done. -/
def value? : OwnerPhase β ρ → Option β
  | .working => none
  | .finished v | .leaving v | .done v _ => some v

/-- What the owner has taken over. -/
def taken : OwnerPhase β ρ → Option (List ρ)
  | .done _ readings => some readings
  | .working | .finished _ | .leaving _ => none

/-- How many moves the owner still makes once the signal is given. -/
def movesLeft : OwnerPhase β ρ → Nat
  | .leaving _ => 1
  | .working | .finished _ | .done _ _ => 0

end OwnerPhase

/-- How many moves are left once the signal is given. -/
def Handover.movesLeft {β ρ : Type} (s : Handover β ρ) : Nat :=
  s.sampler.movesLeft + s.owner.movesLeft

namespace Handover

variable {β ρ : Type} {value : β} {probe : Nat → Option ρ} {s t : Handover β ρ} {m : Move}
  {moves : List Move}

/-! ### What a move does -/

/-- **What a move can do**, one constructor for each way. A call of the probe is answered or fails,
and in the end the owner takes over what was kept, or nothing from a sampler that has failed. -/
inductive Happens (value : β) (probe : Nat → Option ρ) (s : Handover β ρ) :
    Move → Handover β ρ → Prop
  /-- A sampler that is ready calls the probe, -/
  | call (ready : s.sampler = .ready) :
      Happens value probe s .call { s with sampler := .calling, calls := s.calls + 1 }
  /-- keeps the reading that it gets, -/
  | answered {r : ρ} (calling : s.sampler = .calling) (reading : probe (s.calls - 1) = some r) :
      Happens value probe s .answer { s with sampler := .waiting, kept := s.kept ++ [r] }
  /-- and fails if it gets none. -/
  | failed (calling : s.sampler = .calling) (nothing : probe (s.calls - 1) = none) :
      Happens value probe s .answer { s with sampler := .failed }
  /-- A sampler that has waited without a signal is ready again, -/
  | timeout (waiting : s.sampler = .waiting) (empty : s.signal = false) :
      Happens value probe s .timeout { s with sampler := .ready }
  /-- and one that finds the signal takes it and ends. -/
  | receive (waiting : s.sampler = .waiting) (full : s.signal = true) :
      Happens value probe s .receive { s with sampler := .ended, signal := false }
  /-- The owner finishes its work, -/
  | finish (working : s.owner = .working) :
      Happens value probe s .finish { s with owner := .finished value }
  /-- gives the signal, -/
  | give {v : β} (finished : s.owner = .finished v) :
      Happens value probe s .give { s with owner := .leaving v, signal := true }
  /-- and takes over what was kept once the sampler has ended, -/
  | takeOver {v : β} (leaving : s.owner = .leaving v) (ended : s.sampler = .ended) :
      Happens value probe s .takeOver { s with owner := .done v s.kept }
  /-- or nothing if it has failed. -/
  | takeNothing {v : β} (leaving : s.owner = .leaving v) (failed : s.sampler = .failed) :
      Happens value probe s .takeOver { s with owner := .done v [] }

theorem Happens.step_eq (h : Happens value probe s m t) : s.step value probe m = some t := by
  cases h <;> simp only [step, *, and_self, if_true]

/-- **A step does what a move can do and nothing else.** -/
theorem step_eq_some : s.step value probe m = some t ↔ Happens value probe s m t := by
  refine ⟨fun h => ?_, Happens.step_eq⟩
  -- Each move has its own guard. Two of them have two outcomes: a probe answers or fails, and what
  -- is taken over depends on how the sampler has ended.
  cases m with
  | call =>
    simp only [step, Option.ite_none_right_eq_some] at h
    obtain ⟨hready, ⟨⟩⟩ := h
    exact .call hready
  | answer =>
    simp only [step, Option.ite_none_right_eq_some] at h
    obtain ⟨hcalling, h⟩ := h
    cases hprobe : probe (s.calls - 1) with
    | some r =>
      obtain ⟨⟩ : _ = t := by simpa [hprobe] using h
      exact .answered hcalling hprobe
    | none =>
      obtain ⟨⟩ : _ = t := by simpa [hprobe] using h
      exact .failed hcalling hprobe
  | timeout =>
    simp only [step, Option.ite_none_right_eq_some] at h
    obtain ⟨⟨hwaiting, hempty⟩, ⟨⟩⟩ := h
    exact .timeout hwaiting hempty
  | receive =>
    simp only [step, Option.ite_none_right_eq_some] at h
    obtain ⟨⟨hwaiting, hfull⟩, ⟨⟩⟩ := h
    exact .receive hwaiting hfull
  | finish =>
    simp only [step] at h
    split at h
    · next howner => cases h; exact .finish howner
    · cases h
  | give =>
    simp only [step] at h
    split at h
    · next howner => cases h; exact .give howner
    · cases h
  | takeOver =>
    simp only [step] at h
    split at h
    · next howner hended => cases h; exact .takeOver howner hended
    · next howner hfailed => cases h; exact .takeNothing howner hfailed
    · cases h

/-- **Somebody can move until the readings are taken over.** The probe answers or fails, and a wait
runs out or receives the signal. -/
theorem exists_happens (h : s.outcome = none) : ∃ m t, Happens value probe s m t := by
  cases hsampler : s.sampler with
  | ready => exact ⟨_, _, .call hsampler⟩
  | calling =>
    cases hprobe : probe (s.calls - 1) with
    | some r => exact ⟨_, _, .answered hsampler hprobe⟩
    | none => exact ⟨_, _, .failed hsampler hprobe⟩
  | waiting =>
    cases hsignal : s.signal with
    | false => exact ⟨_, _, .timeout hsampler hsignal⟩
    | true => exact ⟨_, _, .receive hsampler hsignal⟩
  | ended =>
    cases howner : s.owner with
    | working => exact ⟨_, _, .finish howner⟩
    | finished v => exact ⟨_, _, .give howner⟩
    | leaving v => exact ⟨_, _, .takeOver howner hsampler⟩
    | done v readings => simp [outcome, howner] at h
  | failed =>
    cases howner : s.owner with
    | working => exact ⟨_, _, .finish howner⟩
    | finished v => exact ⟨_, _, .give howner⟩
    | leaving v => exact ⟨_, _, .takeNothing howner hsampler⟩
    | done v readings => simp [outcome, howner] at h

/-! ### Runs -/

@[simp]
theorem run_nil : s.run value probe [] = some s := rfl

theorem run_cons_eq_some :
    s.run value probe (m :: moves) = some t ↔
      ∃ next, Happens value probe s m next ∧ next.run value probe moves = some t := by
  simp only [run, Option.bind_eq_some_iff, step_eq_some]

/-- A run over two lists is one over the first and then one over the second. -/
theorem run_append_eq_some {before after : List Move} :
    s.run value probe (before ++ after) = some t ↔
      ∃ between, s.run value probe before = some between ∧
        between.run value probe after = some t := by
  induction before generalizing s with
  | nil => simp
  | cons m before ih =>
    simp only [List.cons_append, run_cons_eq_some, ih]
    constructor
    · rintro ⟨next, hstep, between, hbefore, hafter⟩
      exact ⟨between, ⟨next, hstep, hbefore⟩, hafter⟩
    · rintro ⟨between, ⟨next, hstep, hbefore⟩, hafter⟩
      exact ⟨next, hstep, between, hbefore, hafter⟩

/-- What every move keeps, every run keeps. -/
theorem run_induction {P : Handover β ρ → Prop}
    (step : ∀ {s m t}, P s → Happens value probe s m t → P t)
    (h : s.run value probe moves = some t) (hs : P s) : P t := by
  -- The induction is on the moves, with the state before them left open.
  induction moves generalizing s with
  | nil => cases h; exact hs
  | cons m moves ih =>
    obtain ⟨next, hstep, hrun⟩ := run_cons_eq_some.mp h
    exact ih hrun (step hs hstep)

theorem count_call_cons (m : Move) (moves : List Move) :
    (m :: moves).count .call = [m].count .call + moves.count .call := by
  change ([m] ++ moves).count .call = _
  rw [List.count_append]

/-- The calls are counted. -/
theorem calls_of_run (h : s.run value probe moves = some t) :
    t.calls = s.calls + moves.count .call := by
  induction moves generalizing s with
  | nil => cases h; simp
  | cons m moves ih =>
    obtain ⟨next, hstep, hrun⟩ := run_cons_eq_some.mp h
    have hnext : next.calls = s.calls + [m].count .call := by cases hstep <;> rfl
    rw [ih hrun, hnext, count_call_cons m moves, Nat.add_assoc]

/-! ### What the sampler has kept -/

/-- **The record of the sampler.** Only its own moves touch it. -/
structure Recorded (probe : Nat → Option ρ) (s : Handover β ρ) : Prop where
  /-- Each call has left its reading, but for one that is going on or has failed. -/
  calls_eq : s.calls = s.kept.length + s.sampler.unanswered
  /-- The readings kept are the answers of the probe from the first call on. -/
  kept_eq : s.kept.map some = (List.range s.kept.length).map probe
  /-- The sampler waits after an answer only. -/
  kept_ne_nil : s.sampler = .waiting ∨ s.sampler = .ended → s.kept ≠ []
  /-- A sampler that has failed did so at the call after those whose readings it has kept. -/
  probe_eq_none : s.sampler = .failed → probe s.kept.length = none

/-- A call whose reading is kept has not failed. -/
theorem Recorded.probe_ne_none (hs : Recorded probe s) {n : Nat} (hn : n < s.kept.length) :
    probe n ≠ none := by
  have hmem : probe n ∈ s.kept.map some := by
    rw [hs.kept_eq]
    exact List.mem_map_of_mem (List.mem_range.mpr hn)
  obtain ⟨r, -, hr⟩ := List.mem_map.mp hmem
  simp [← hr]

theorem Recorded.start : Recorded probe (start : Handover β ρ) where
  calls_eq := rfl
  kept_eq := rfl
  kept_ne_nil := by simp [Handover.start]
  probe_eq_none := by simp [Handover.start]

/-- **Every move keeps the record right.** -/
theorem Recorded.step (hs : Recorded probe s) (h : Happens value probe s m t) :
    Recorded probe t := by
  have hcalls := hs.calls_eq
  cases h with
  | call ready =>
    -- the new call is the one without a reading
    rw [ready] at hcalls
    exact ⟨congrArg (· + 1) hcalls, hs.kept_eq, by simp, by simp⟩
  | @answered r calling reading =>
    -- the answer belongs right behind the readings kept so far
    rw [calling] at hcalls
    have hr : some r = probe s.kept.length := by rw [← reading, hcalls]; rfl
    refine ⟨by simpa [SamplerPhase.unanswered] using hcalls, ?_, by simp, by simp⟩
    simp [List.range_succ, hs.kept_eq, hr]
  | failed calling nothing =>
    rw [calling] at hcalls
    refine ⟨hcalls, hs.kept_eq, by simp, fun _ => ?_⟩
    rw [← nothing, hcalls]; rfl
  | timeout waiting empty =>
    rw [waiting] at hcalls
    exact ⟨hcalls, hs.kept_eq, by simp, by simp⟩
  | receive waiting full =>
    rw [waiting] at hcalls
    exact ⟨hcalls, hs.kept_eq, fun _ => hs.kept_ne_nil (.inl waiting), by simp⟩
  | finish | give | takeOver | takeNothing =>
    exact ⟨hs.calls_eq, hs.kept_eq, hs.kept_ne_nil, hs.probe_eq_none⟩

/-! ### What the owner has given and taken -/

/-- **The state of the exchange.** -/
structure Exchanged (value : β) (s : Handover β ρ) : Prop where
  /-- The signal is in the box or has ended the sampler exactly if the owner has given it. -/
  signal_or_ended : s.signal = true ∨ s.sampler = .ended ↔ s.owner.given = true
  /-- The signal that has ended the sampler is not in the box any more. -/
  signal_eq_false : s.sampler = .ended → s.signal = false
  /-- The owner holds the value of its work. -/
  value_eq : ∀ v ∈ s.owner.value?, v = value
  /-- The owner takes over what an ended sampler has kept, and nothing from one that has failed. -/
  taken_eq : ∀ readings ∈ s.owner.taken,
    s.sampler = .ended ∧ readings = s.kept ∨ s.sampler = .failed ∧ readings = []

/-- No signal has been given in the beginning, and nothing taken. -/
theorem Exchanged.start : Exchanged value (start : Handover β ρ) where
  signal_or_ended := by simp [Handover.start, OwnerPhase.given]
  signal_eq_false := fun _ => rfl
  value_eq := by simp [Handover.start, OwnerPhase.value?]
  taken_eq := by simp [Handover.start, OwnerPhase.taken]

/-- Nothing is taken over from a sampler that is still at work. -/
theorem Exchanged.taken_eq_none (hs : Exchanged value s) (hended : s.sampler ≠ .ended)
    (hfailed : s.sampler ≠ .failed) : s.owner.taken = none := by
  refine Option.eq_none_iff_forall_not_mem.mpr fun readings hreadings => ?_
  obtain ⟨h, -⟩ | ⟨h, -⟩ := hs.taken_eq readings hreadings
  · exact hended h
  · exact hfailed h

/-- The exchange is not touched by a move of a sampler that goes on, or that fails. -/
theorem Exchanged.of_sampler (hs : Exchanged value s) (howner : t.owner = s.owner)
    (hsignal : t.signal = s.signal) (hwork : s.sampler ≠ .ended ∧ s.sampler ≠ .failed)
    (hnext : t.sampler ≠ .ended) : Exchanged value t where
  signal_or_ended := by
    rw [howner, hsignal, ← hs.signal_or_ended]
    simp [hwork.1, hnext]
  signal_eq_false := fun h => absurd h hnext
  value_eq := by rw [howner]; exact hs.value_eq
  taken_eq := by simp [howner, hs.taken_eq_none hwork.1 hwork.2]

/-- An owner that takes over what there is holds it together with the value of its work. -/
theorem Exchanged.of_taken (hs : Exchanged value s) {v : β} (leaving : s.owner = .leaving v)
    {readings : List ρ} (htaken : s.sampler = .ended ∧ readings = s.kept ∨
      s.sampler = .failed ∧ readings = []) :
    Exchanged value { s with owner := .done v readings } where
  signal_or_ended := by
    have hsignal := hs.signal_or_ended
    rwa [leaving] at hsignal
  signal_eq_false := hs.signal_eq_false
  value_eq := by
    have hvalue := hs.value_eq v (by simp [leaving, OwnerPhase.value?])
    simpa [OwnerPhase.value?] using hvalue
  taken_eq := by simpa [OwnerPhase.taken] using htaken

/-- **Every move keeps the exchange right.** -/
theorem Exchanged.step (hs : Exchanged value s) (h : Happens value probe s m t) :
    Exchanged value t := by
  have hsignal := hs.signal_or_ended
  cases h with
  | call ready => exact hs.of_sampler rfl rfl (by simp [ready]) (by simp)
  | answered calling reading => exact hs.of_sampler rfl rfl (by simp [calling]) (by simp)
  | failed calling nothing => exact hs.of_sampler rfl rfl (by simp [calling]) (by simp)
  | timeout waiting empty => exact hs.of_sampler rfl rfl (by simp [waiting]) (by simp)
  | receive waiting full =>
    -- what was in the box has ended the sampler
    have htaken := hs.taken_eq_none (by simp [waiting]) (by simp [waiting])
    exact {
      signal_or_ended := by simpa using hsignal.mp (.inl full)
      signal_eq_false := fun _ => rfl
      value_eq := hs.value_eq
      taken_eq := by simp [htaken] }
  | finish working =>
    rw [working] at hsignal
    exact ⟨hsignal, hs.signal_eq_false, by simp [OwnerPhase.value?], by simp [OwnerPhase.taken]⟩
  | @give v finished =>
    -- the owner gives the signal once, so nothing has ended the sampler before
    have hended : s.sampler ≠ .ended := fun ended => by
      simpa [finished, OwnerPhase.given] using hsignal.mp (.inr ended)
    have hvalue := hs.value_eq v (by simp [finished, OwnerPhase.value?])
    exact {
      signal_or_ended := by simp [OwnerPhase.given]
      signal_eq_false := fun ended => absurd ended hended
      value_eq := by simpa [OwnerPhase.value?] using hvalue
      taken_eq := by simp [OwnerPhase.taken] }
  | takeOver leaving ended => exact hs.of_taken leaving (.inl ⟨ended, rfl⟩)
  | takeNothing leaving failed => exact hs.of_taken leaving (.inr ⟨failed, rfl⟩)

/-! ### What is left after the signal -/

/-- A signal stays in the box until it is received. -/
theorem signal_or_receive (hs : s.signal = true) (h : s.run value probe moves = some t) :
    t.signal = true ∨ .receive ∈ moves := by
  induction moves generalizing s with
  | nil => cases h; exact .inl hs
  | cons m moves ih =>
    obtain ⟨next, hstep, hrun⟩ := run_cons_eq_some.mp h
    by_cases hm : m = .receive
    · exact .inr (by simp [hm])
    · have hnext : next.signal = true := by
        cases hstep with
        | receive => exact absurd rfl hm
        | give => rfl
        | _ => exact hs
      exact (ih hnext hrun).imp_right (List.mem_cons_of_mem m)

/-- **A move after the signal.** No wait runs out any more, and both counters drop. -/
theorem Exchanged.left_of_step (hs : Exchanged value s) (hgiven : s.owner.given = true)
    (h : Happens value probe s m t) :
    m ≠ .timeout ∧ t.owner.given = true ∧
      [m].count .call + t.sampler.callsLeft ≤ s.sampler.callsLeft ∧ t.movesLeft < s.movesLeft := by
  cases h with
  | call ready =>
    simp [hgiven, ready, movesLeft, SamplerPhase.callsLeft, SamplerPhase.movesLeft]
  | answered calling =>
    simp [hgiven, calling, movesLeft, SamplerPhase.callsLeft, SamplerPhase.movesLeft]
  | failed calling =>
    simp [hgiven, calling, movesLeft, SamplerPhase.callsLeft, SamplerPhase.movesLeft]
  | timeout waiting empty =>
    -- the signal that was given is neither in the box nor received
    have := hs.signal_or_ended.mpr hgiven
    simp [waiting, empty] at this
  | receive waiting =>
    simp [hgiven, waiting, movesLeft, SamplerPhase.callsLeft, SamplerPhase.movesLeft]
  | finish working => simp [working, OwnerPhase.given] at hgiven
  | give finished => simp [finished, OwnerPhase.given] at hgiven
  | takeOver leaving | takeNothing leaving =>
    simp [leaving, movesLeft, OwnerPhase.given, OwnerPhase.movesLeft]

/-- **A run after the signal.** No wait runs out any more, the sampler calls its probe at most as
often as its phase says, and both together have few moves left. -/
theorem Exchanged.left_of_run (hs : Exchanged value s) (hgiven : s.owner.given = true)
    (h : s.run value probe moves = some t) :
    .timeout ∉ moves ∧ moves.count .call ≤ s.sampler.callsLeft ∧ moves.length ≤ s.movesLeft := by
  -- Each move uses up one of the moves that are left, and a call one of the calls.
  induction moves generalizing s with
  | nil => simp
  | cons m moves ih =>
    obtain ⟨next, hstep, hrun⟩ := run_cons_eq_some.mp h
    obtain ⟨hm, hnext, hcall, hmove⟩ := hs.left_of_step hgiven hstep
    obtain ⟨htimeout, hcalls, hlength⟩ := ih (hs.step hstep) hnext hrun
    have hcount := count_call_cons m moves
    refine ⟨?_, ?_, ?_⟩
    · rw [List.mem_cons, not_or]
      exact ⟨hm.symm, htimeout⟩
    · omega
    · rw [List.length_cons]
      omega

/-! ### The hand-over -/

/-- There is an outcome when the owner has taken over. -/
theorem outcome_eq_some {v : β} {readings : List ρ} :
    s.outcome = some (v, readings) ↔ s.owner = .done v readings := by
  unfold outcome
  split <;> simp_all

/-- **What the owner has in the end** is the value of its work and, unless a call has failed, the
reading of every call. -/
theorem outcome_of_run (h : start.run value probe moves = some s) {v : β} {readings : List ρ}
    (hs : s.outcome = some (v, readings)) :
    v = value ∧
      ((∀ n < moves.count .call, probe n ≠ none) →
        readings ≠ [] ∧ readings.map some = (List.range (moves.count .call)).map probe) ∧
      ((∃ n < moves.count .call, probe n = none) → readings = []) := by
  have hrecorded : Recorded probe s := run_induction Recorded.step h Recorded.start
  have hexchanged : Exchanged value s := run_induction Exchanged.step h Exchanged.start
  have hcalls : moves.count .call = s.calls := by simpa [start] using (calls_of_run h).symm
  have howner := outcome_eq_some.mp hs
  have hvalue : v = value := hexchanged.value_eq v (by simp [howner, OwnerPhase.value?])
  have htaken := hexchanged.taken_eq readings (by simp [howner, OwnerPhase.taken])
  rw [hcalls, hrecorded.calls_eq]
  refine ⟨hvalue, ?_⟩
  -- Only two states of the sampler let the owner take over.
  obtain ⟨hended, rfl⟩ | ⟨hfailed, rfl⟩ := htaken
  · -- an ended sampler has kept the reading of every call
    rw [hended, SamplerPhase.unanswered, Nat.add_zero]
    refine ⟨fun _ => ⟨hrecorded.kept_ne_nil (.inr hended), hrecorded.kept_eq⟩, ?_⟩
    rintro ⟨n, hn, hnone⟩
    exact absurd hnone (hrecorded.probe_ne_none hn)
  · -- the last call of a failed one has no reading
    rw [hfailed, SamplerPhase.unanswered]
    refine ⟨fun hall => ?_, fun _ => rfl⟩
    exact absurd (hrecorded.probe_eq_none hfailed) (hall _ (Nat.lt_succ_self _))

/-- **A signal is not lost**, whenever it is given, and the run soon ends. -/
theorem left_of_give {before after : List Move}
    (h : start.run value probe (before ++ .give :: after) = some s) :
    (.receive ∈ after ∨ s.signal = true ∧ s.sampler ≠ .ended) ∧ .timeout ∉ after ∧
      after.count .call ≤ 1 ∧ after.length ≤ 4 := by
  obtain ⟨between, hbefore, hrun⟩ := run_append_eq_some.mp h
  obtain ⟨next, hgive, hafter⟩ := run_cons_eq_some.mp hrun
  have hbetween : Exchanged value between := run_induction Exchanged.step hbefore Exchanged.start
  have hnext := hbetween.step hgive
  have hend : Exchanged value s := run_induction Exchanged.step hafter hnext
  cases hgive with
  | give finished =>
    obtain ⟨htimeout, hcalls, hlength⟩ := hnext.left_of_run rfl hafter
    have hmoves : between.sampler.movesLeft + 1 ≤ 4 :=
      Nat.succ_le_succ between.sampler.movesLeft_le
    refine ⟨?_, htimeout, Nat.le_trans hcalls between.sampler.callsLeft_le,
      Nat.le_trans hlength hmoves⟩
    obtain hsignal | hreceive := signal_or_receive rfl hafter
    · refine .inr ⟨hsignal, fun hended => ?_⟩
      simp [hend.signal_eq_false hended] at hsignal
    · exact .inl hreceive

/-- **The end of a run.** Nobody moves after the readings are taken over. -/
theorem eq_nil_of_takeOver {before after : List Move}
    (h : start.run value probe (before ++ .takeOver :: after) = some s) : after = [] := by
  obtain ⟨between, hbefore, hrun⟩ := run_append_eq_some.mp h
  obtain ⟨next, htake, hafter⟩ := run_cons_eq_some.mp hrun
  have hbetween : Exchanged value between := run_induction Exchanged.step hbefore Exchanged.start
  have hnext := hbetween.step htake
  have hlength : after.length ≤ 0 := by
    cases htake with
    | takeOver leaving ended | takeNothing leaving ended =>
      obtain ⟨-, -, hlength⟩ := hnext.left_of_run rfl hafter
      simpa [movesLeft, ended, SamplerPhase.movesLeft, OwnerPhase.movesLeft] using hlength
  exact List.length_eq_zero_iff.mp (Nat.le_zero.mp hlength)

/-- **A run that cannot go on has its outcome.** -/
theorem outcome_of_stuck (h : start.run value probe moves = some s)
    (hs : ∀ m, s.step value probe m = none) : ∃ readings, s.outcome = some (value, readings) := by
  cases houtcome : s.outcome with
  | none =>
    obtain ⟨m, t, hstep⟩ := @exists_happens _ _ value probe s houtcome
    rw [← step_eq_some, hs m] at hstep
    cases hstep
  | some result =>
    obtain ⟨v, readings⟩ := result
    obtain ⟨rfl, -⟩ := outcome_of_run h houtcome
    exact ⟨readings, rfl⟩

/-- **The hand-over**, in every order of the moves and for every probe. In the end the owner has the
value of its work and the readings of all calls that were made, at least one of them, in order;
nothing if a call has failed. A signal is not lost, at whatever moment it is given: no wait runs out
after it, at most one call begins, and at most four moves are left. None is left after the readings
are taken over, and nothing but that ends a run. -/
theorem handover_of_run (h : start.run value probe moves = some s) :
    (∀ v readings, s.outcome = some (v, readings) →
      v = value ∧
      ((∀ n < moves.count .call, probe n ≠ none) →
        readings ≠ [] ∧ readings.map some = (List.range (moves.count .call)).map probe) ∧
      ((∃ n < moves.count .call, probe n = none) → readings = [])) ∧
    (∀ before after, moves = before ++ .give :: after →
      (.receive ∈ after ∨ s.signal = true ∧ s.sampler ≠ .ended) ∧ .timeout ∉ after ∧
      after.count .call ≤ 1 ∧ after.length ≤ 4) ∧
    (∀ before after, moves = before ++ .takeOver :: after → after = []) ∧
    ((∀ m, s.step value probe m = none) → ∃ readings, s.outcome = some (value, readings)) := by
  refine ⟨fun v readings hs => outcome_of_run h hs, ?_, ?_, outcome_of_stuck h⟩
  · rintro before after rfl
    exact left_of_give h
  · rintro before after rfl
    exact eq_nil_of_takeOver h

/-- A signal that is given when a wait has just run out is received after one more call. -/
theorem late_signal_is_received :
    let probe : Nat → Option Nat := fun n => some (n + 5)
    let before : List Move := [.call, .answer, .finish, .timeout]
    let after : List Move := [.call, .answer, .receive, .takeOver]
    ∃ s : Handover String Nat,
      start.run "result" probe (before ++ .give :: after) = some s ∧
      s.outcome = some ("result", [5, 6]) ∧
      ([5, 6] : List Nat).map some =
        (List.range ((before ++ .give :: after).count .call)).map probe ∧
      after.count .call ≤ 1 := by
  intro probe before after
  let s : Handover String Nat := ⟨.ended, .done "result" [5, 6], false, 2, [5, 6]⟩
  have hrun : start.run "result" probe (before ++ .give :: after) = some s := rfl
  obtain ⟨houtcome, hgive, -, -⟩ := handover_of_run hrun
  obtain ⟨-, hreadings, -⟩ := houtcome "result" [5, 6] rfl
  obtain ⟨-, -, hcalls, -⟩ := hgive before after rfl
  exact ⟨s, hrun, rfl, (hreadings fun n _ => Option.some_ne_none _).2, hcalls⟩

end Handover

end PinnedBench
