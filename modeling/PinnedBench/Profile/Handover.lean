/-!
# The sampler and its owner

A series of readings is taken by a sampler that runs beside the owner of the measured work. The
sampler calls its probe, keeps the reading, and waits for a signal with a time limit; when the limit
passes it calls the probe again, when the signal arrives it stops. The owner does the work, leaves a
signal in a box that holds one, and takes over what the sampler has kept once the sampler has ended.

`Handover` is the common state of the two, `Move` what either can do next, and `Handover.step` says
when a move is possible and what it leads to. The readings pass to the owner as a whole when it
takes over, never before; a probe that fails ends the sampler, and its readings are lost, but the
value of the work is not.

* A wait runs out only while no signal is in the box: a signal that is there is received.
* `Handover.run` follows a list of moves; every possible interleaving of the two is such a list.
-/

namespace PinnedBench

/-- What the sampler is doing. -/
inductive SamplerPhase where
  /-- It is about to call the probe. -/
  | ready
  /-- It is inside a call of the probe. -/
  | calling
  /-- It waits for the signal. -/
  | waiting
  /-- It has ended. -/
  | ended
  /-- Its probe has failed. -/
  | failed
  deriving DecidableEq, Repr

/-- What the owner is doing. -/
inductive OwnerPhase (β ρ : Type) where
  /-- It does the work. -/
  | working
  /-- The work is done. -/
  | finished (value : β)
  /-- The signal is given. -/
  | leaving (value : β)
  /-- The readings are taken over. -/
  | done (value : β) (readings : List ρ)
  deriving DecidableEq, Repr

/-- The common state of the sampler and its owner. -/
structure Handover (β ρ : Type) where
  /-- What the sampler is doing. -/
  sampler : SamplerPhase
  /-- What the owner is doing. -/
  owner : OwnerPhase β ρ
  /-- Whether a signal is in the box. -/
  signal : Bool
  /-- How often the probe has been called. -/
  calls : Nat
  /-- The readings kept by the sampler, in order. -/
  kept : List ρ
  deriving DecidableEq, Repr

/-- What the sampler or its owner can do next. -/
inductive Move where
  /-- The sampler calls the probe. -/
  | call
  /-- The probe answers. -/
  | answer
  /-- The wait runs out. -/
  | timeout
  /-- The sampler receives the signal. -/
  | receive
  /-- The owner ends its work. -/
  | finish
  /-- The owner gives the signal. -/
  | give
  /-- The owner takes the readings over. -/
  | takeOver
  deriving DecidableEq, Repr

namespace Handover

variable {β ρ : Type}

/-- Both have just started. -/
def start : Handover β ρ := ⟨.ready, .working, false, 0, []⟩

/-- **One move.** The work has the value `value`, and the `n`-th call of the probe, counted from
zero, answers `probe n`, nothing if it fails. A move that is not possible has no outcome. -/
def step (value : β) (probe : Nat → Option ρ) (s : Handover β ρ) : Move → Option (Handover β ρ)
  | .call =>
    if s.sampler = .ready then some { s with sampler := .calling, calls := s.calls + 1 } else none
  | .answer =>
    if s.sampler = .calling then
      match probe (s.calls - 1) with
      | some r => some { s with sampler := .waiting, kept := s.kept ++ [r] }
      | none => some { s with sampler := .failed }
    else none
  | .timeout =>
    if s.sampler = .waiting ∧ s.signal = false then some { s with sampler := .ready } else none
  | .receive =>
    if s.sampler = .waiting ∧ s.signal then some { s with sampler := .ended, signal := false }
    else none
  | .finish =>
    match s.owner with
    | .working => some { s with owner := .finished value }
    | _ => none
  | .give =>
    match s.owner with
    | .finished v => some { s with owner := .leaving v, signal := true }
    | _ => none
  | .takeOver =>
    match s.owner, s.sampler with
    | .leaving v, .ended => some { s with owner := .done v s.kept }
    | .leaving v, .failed => some { s with owner := .done v [] }
    | _, _ => none

/-- The state after a list of moves, if all of them are possible. -/
def run (value : β) (probe : Nat → Option ρ) : Handover β ρ → List Move → Option (Handover β ρ)
  | s, [] => some s
  | s, m :: moves => (s.step value probe m).bind fun next => run value probe next moves

/-- What the owner has in the end: the value of its work and the readings. -/
def outcome (s : Handover β ρ) : Option (β × List ρ) :=
  match s.owner with
  | .done v readings => some (v, readings)
  | _ => none

end Handover

/-- The moves of the sampler up to the end of its `n`-th call, waits running out in between. -/
def Move.calls : Nat → List Move
  | 0 => []
  | 1 => [.call, .answer]
  | n + 1 => [.call, .answer, .timeout] ++ calls n

end PinnedBench
