import PinnedBench.Fault
import PinnedBench.Json.Decoder
import PinnedBench.Json.Printer

/-!
# Configuration of a benchmark

A `Configuration` says how implementations are run: how often, whether the machine may settle
before, what is pinned, and whether resources are observed. It is written into the summary of a
benchmark as it is. When it is read, every field that is left out has its standard value.

`settleTime` is how long the machine is left alone: two seconds, or less if a limit is given, and
not at all in one of the modes.
-/

namespace PinnedBench

/-! ### Settling -/

/-- How the machine settles before a measurement. -/
inductive SettleMode where
  /-- It is left alone for a while. -/
  | wait
  /-- Measuring begins at once. -/
  | skip
  /-- It is left alone for a while; kept for refusing a machine that is not stable. -/
  | fail
  deriving DecidableEq, Repr

namespace SettleMode

/-- The word for a mode. -/
def word : SettleMode → String
  | wait => "wait"
  | skip => "skip"
  | fail => "fail"

/-- The modes by their words. -/
def named : List (String × SettleMode) := [wait, skip, fail].map fun m => (m.word, m)

/-- The milliseconds for which the machine is left alone, given the most that it may be, if it is
left alone at all. -/
def settleTime (mode : SettleMode) (limit : Nat) : Option Nat :=
  if mode = skip then none else some (min 2000 limit)

end SettleMode

/-! ### Pinned environment -/

/-- A collection of variables that are all set to one. -/
def pinnedToOne (names : List String) : Keyed String := .ofList (names.map fun n => (n, "1"))

/-- The variables that give numeric libraries their number of threads. -/
def numericNames : List String :=
  ["OMP_NUM_THREADS", "MKL_NUM_THREADS", "OPENBLAS_NUM_THREADS", "NUMEXPR_NUM_THREADS"]

/-- The environment in which numeric libraries use one thread. -/
def numericEnvironment : Keyed String := pinnedToOne numericNames

/-- The environment in which everything uses one thread. -/
def singleThreadEnvironment : Keyed String := numericEnvironment.insert "GOMAXPROCS" "1"

/-! ### Configurations -/

/-- How implementations are run. -/
structure Configuration where
  /-- The number of runs that are not measured. -/
  warmup : UInt32
  /-- The number of measured runs. -/
  runs : UInt32
  /-- The repetitions within a run. -/
  repetitions : UInt32
  /-- Whether the machine settles before. -/
  settles : Bool
  /-- How it settles. -/
  mode : SettleMode
  /-- The seconds that it was left alone. -/
  waited : Double
  /-- The processor that the runs are pinned to. -/
  processor : Option UInt32
  /-- Whether everything is to use one thread. -/
  singleThread : Bool
  /-- The address of a telemetry agent. -/
  agent : Option String
  /-- Whether resources are observed during the runs. -/
  observes : Bool
  deriving DecidableEq, Repr

namespace Configuration

/-- The configuration used unless another is given. -/
def standard : Configuration where
  warmup := 5
  runs := 30
  repetitions := 50
  settles := false
  mode := .wait
  waited := ((0 : Nat) : Double)
  processor := none
  singleThread := false
  agent := none
  observes := false

/-- Refuses to measure nothing. -/
def validate (c : Configuration) : Except ParameterFault Unit :=
  if c.runs = 0 then .error .noRuns
  else if c.repetitions = 0 then .error .noRepeat
  else .ok ()

/-- The names of the fields. -/
def fieldNames : List String :=
  ["warmup", "runs", "repeat", "stability_enabled", "stability_mode", "waited_seconds",
    "cpu_affinity", "enforce_single_thread", "ebpf_agent", "profile_resources"]

/-- The configuration as a JSON value. -/
def toJson (c : Configuration) : Json :=
  .object [("warmup", .ofHalfWord c.warmup), ("runs", .ofHalfWord c.runs),
    ("repeat", .ofHalfWord c.repetitions), ("stability_enabled", .boolean c.settles),
    ("stability_mode", .string c.mode.word), ("waited_seconds", .ofDouble c.waited),
    ("cpu_affinity", .ofOption .ofHalfWord c.processor),
    ("enforce_single_thread", .boolean c.singleThread), ("ebpf_agent", .ofOption .string c.agent),
    ("profile_resources", .boolean c.observes)]

/-- Reads a configuration. -/
def decode : Json.Decoder Configuration := fun levels t => do
  let f ← Json.Tree.fields fieldNames levels t
  let std := standard
  .ok { warmup := ← f.defaulted "warmup" std.warmup .halfWord
        runs := ← f.defaulted "runs" std.runs .halfWord
        repetitions := ← f.defaulted "repeat" std.repetitions .halfWord
        settles := ← f.defaulted "stability_enabled" std.settles .boolean
        mode := ← f.defaulted "stability_mode" std.mode (.variant SettleMode.named)
        waited := ← f.defaulted "waited_seconds" std.waited .double
        processor := ← f.defaulted "cpu_affinity" std.processor (.orNull .halfWord)
        singleThread := ← f.defaulted "enforce_single_thread" std.singleThread .boolean
        agent := ← f.defaulted "ebpf_agent" std.agent (.orNull .string)
        observes := ← f.defaulted "profile_resources" std.observes .boolean }

end Configuration

end PinnedBench
