import PinnedBench.Command.Basic
import PinnedBench.Usage.Reader

/-!
# Command lines

`Invocation.ofWords` reads the words of a command line: the name of a command, flags of the program
before it, and the items of the command behind it. `CommandForm.all` lists the commands with their
items, and the usage is written from the same list.
-/

namespace PinnedBench

/-! ### Items of the commands -/

namespace GenerateArguments

/-- The items of the command. -/
def items : List (Item GenerateArguments) :=
  [(Item.integer "n" "N" "Number of embeddings" fun n a =>
      { a with parameters := { a.parameters with n } }).alsoNamed "N" |>.otherwise "2000",
    (Item.integer "m" "M" "Number of axes" fun m a =>
      { a with parameters := { a.parameters with m } }).alsoNamed "M" |>.otherwise "15",
    (Item.integer "d" "D" "Dimensions" fun d a =>
      { a with parameters := { a.parameters with d } }).alsoNamed "D" |>.otherwise "96",
    (Item.word "seed" "SEED" "Random seed" fun seed a =>
      { a with parameters := { a.parameters with seed } }).otherwise "42",
    (Item.path "output" "DIR" "Output directory" fun p a =>
      { a with directory := ⟨p⟩ }).otherwise "data",
    .flag "force" "Overwrite an existing dataset" fun a => { a with overwrite := true }]

end GenerateArguments

namespace VerifyArguments

/-- The items of the command. -/
def items : List (Item VerifyArguments) :=
  [(Item.path "output" "DIR" "Dataset directory" fun p a =>
      { a with directory := ⟨p⟩ }).otherwise "data"]

end VerifyArguments

namespace RunArguments

/-- The arguments with another configuration. -/
def configure (a : RunArguments) (f : Configuration → Configuration) : RunArguments :=
  { a with configuration := f a.configuration }

/-- The items of the command. -/
def items : List (Item RunArguments) :=
  [(Item.path "metadata" "FILE" "Path to the dataset metadata.json" fun p a =>
      { a with descriptor := ⟨p⟩ }).mandatory,
    (Item.text "impls" "LIST"
      "Comma separated implementations (e.g. python-naive,python-numpy)" fun s a =>
      { a with implementations := s }).mandatory,
    (Item.halfWord "warmup" "WARMUP" "Number of warmup runs" fun n a =>
      a.configure fun c => { c with warmup := n }).otherwise "5",
    (Item.halfWord "runs" "RUNS" "Number of measured runs" fun n a =>
      a.configure fun c => { c with runs := n }).otherwise "30",
    (Item.halfWord "repeat" "REPEAT" "Repetitions per run" fun n a =>
      a.configure fun c => { c with repetitions := n }).otherwise "50",
    .flag "stability-enable" "Let the system settle before measuring" fun a =>
      a.configure fun c => { c with settles := true },
    (Item.choice SettleMode.named "stability-mode" "STABILITY_MODE" "Stability check mode"
      fun m a => a.configure fun c => { c with mode := m }).otherwise "wait",
    (Item.word "stability-timeout" "SECS" "Stability check timeout in seconds" fun n a =>
      { a with settleLimit := n }).otherwise "60",
    .flag "enforce-single-thread" "Pin numeric libraries to a single thread" fun a =>
      a.configure fun c => { c with singleThread := true },
    .halfWord "cpu-affinity" "CPU" "Pin to a specific CPU core" fun n a =>
      a.configure fun c => { c with processor := some n },
    .text "ebpf-agent" "URL" "Telemetry agent URL, recorded in the summary" fun s a =>
      a.configure fun c => { c with agent := some s },
    .flag "profile-resources" "Sample CPU/RAM/I/O from /proc while each implementation runs"
      fun a => a.configure fun c => { c with observes := true },
    (Item.path "output" "DIR" "Output directory" fun p a =>
      { a with directory := ⟨p⟩ }).otherwise "runner"]

end RunArguments

namespace ReportArguments

/-- The items of the command. -/
def items : List (Item ReportArguments) :=
  [(Item.path "runner-summary" "FILE" "Path to the runner summary.json" fun p a =>
      { a with summary := ⟨p⟩ }).mandatory,
    .path "ebpf-evidence" "FILE" "Path to the telemetry evidence.json" fun p a =>
      { a with evidence := some ⟨p⟩ },
    (Item.path "metadata" "FILE" "Path to the dataset metadata.json" fun p a =>
      { a with descriptor := ⟨p⟩ }).mandatory,
    (Item.path "output" "FILE" "Output report path" fun p a =>
      { a with target := ⟨p⟩ }).otherwise "report.json",
    (Item.text "command-line" "COMMAND_LINE" "Full command line used for the benchmark" fun s a =>
      { a with commandLine := s }).otherwise "",
    (Item.text "baseline-impl" "BASELINE_IMPL" "" fun s a =>
      { a with baseline := { a.baseline with name := s } }).otherwise "python",
    (Item.text "baseline-variant" "BASELINE_VARIANT" "" fun s a =>
      { a with baseline := { a.baseline with variant := s } }).otherwise "naive",
    (Item.text "optimized-impl" "OPTIMIZED_IMPL" "" fun s a =>
      { a with optimized := { a.optimized with name := s } }).otherwise "python",
    (Item.text "optimized-variant" "OPTIMIZED_VARIANT" "" fun s a =>
      { a with optimized := { a.optimized with variant := s } }).otherwise "numpy",
    .path "impact-config" "FILE" "TOML file overriding the impact constants" fun p a =>
      { a with rates := some ⟨p⟩ }]

end ReportArguments

namespace ConvertArguments

/-- The items of the command. -/
def items : List (Item ConvertArguments) :=
  [(Item.path "input" "FILE" "Input results JSON" fun p a => { a with source := ⟨p⟩ }).mandatory,
    (Item.path "output" "FILE" "Output report path" fun p a =>
      { a with target := ⟨p⟩ }).otherwise "report.json",
    (Item.text "baseline" "BASELINE" "Baseline implementation name" fun s a =>
      { a with baseline := s }).mandatory,
    (Item.text "optimized" "OPTIMIZED" "Optimized implementation name" fun s a =>
      { a with optimized := s }).mandatory,
    .path "metadata" "FILE"
      "Dataset metadata.json to record instead of the placeholder descriptor" fun p a =>
      { a with descriptor := some ⟨p⟩ }]

end ConvertArguments

/-! ### Forms of the commands -/

/-- The flag of the program that is taken before the command and behind it. -/
def debugItem : Item Bool := .flag "debug" "Enable debug tracing output to stderr" fun _ => true

/-- A command as it is written. -/
structure CommandForm where
  /-- Its name. -/
  name : String
  /-- What it does. -/
  help : String
  /-- Its items, whatever they do. -/
  items : List (Item Unit)
  /-- Reads its words; the flag tells whether debugging has been asked for before. -/
  read : Bool → List String → Except UsageStop Invocation

namespace CommandForm

/-- The form of a command with arguments of some type. -/
def of {σ : Type} (name help : String) (items : List (Item σ)) (standard : σ) (make : σ → Command) :
    CommandForm where
  name := name
  help := help
  items := (items.map (Item.within (fun _ => standard) fun _ u => u)) ++
    [debugItem.within (fun _ => false) fun _ u => u]
  read before words := do
    let all := items.map (Item.within Prod.fst fun s (_, debug) => (s, debug)) ++
      [debugItem.within Prod.snd fun debug (s, _) => (s, debug)]
    let (s, debug) ← readItems name all (standard, false) words
    .ok ⟨make s, before || debug⟩

/-- **The commands of the program.** -/
def all : List CommandForm :=
  [of "generate" "Generate a synthetic dataset and its lock file, then verify it"
      GenerateArguments.items .standard .generate,
    of "verify" "Recompute the dataset hash and compare it with the metadata"
      VerifyArguments.items .standard .verify,
    of "run" "Benchmark implementations against a locked dataset"
      RunArguments.items .standard .run,
    of "report" "Build report.json from a runner summary"
      ReportArguments.items .standard .report,
    of "convert" "Convert a multi-implementation results file into report.json"
      ConvertArguments.items .standard .convert]

/-- The form of a command. -/
def find? (name : String) : Option CommandForm := all.find? fun c => c.name == name

end CommandForm

/-- The name of the command that shows the usage. -/
def helpName : String := "help"

/-- Whether a word names a command. -/
def isCommandName (word : String) : Bool := word == helpName || (CommandForm.find? word).isSome

/-! ### Reading -/

namespace Invocation

/-- Where the words behind the command that shows the usage lead to: to the usage of the command
that they name. -/
def helpOn : List String → UsageStop
  | [] => .help none
  | word :: rest =>
    if isCommandName word then
      match rest with
      | [] => .help (some word)
      | next :: _ => .unknownCommand next
    else .unknownCommand word

/-- Where the words lead to before which two hyphens say that no item follows: there is no command.
-/
def withoutItems (debug : Bool) : List String → UsageStop
  | [] => if debug then .noCommand else .nothing
  | word :: _ => if isCommandName word then .unknownWord word else .unknownCommand word

/-- A flag of the program that shows a text. -/
def shows (name : String) : Option UsageStop :=
  if name = "help" then some (.help none) else if name = "version" then some .version else none

/-- Reads words, knowing whether debugging has been asked for. -/
def read (debug : Bool) : List String → Except UsageStop Invocation
  | [] => .error (withoutItems debug [])
  | word :: rest =>
    match WordForm.of word with
    | .terminator => .error (withoutItems debug rest)
    | .long name value =>
      if name ≠ debugItem.name ∧ shows name = none then .error (.unknownWord word)
      else if value.isSome then .error (.needlessValue name)
      else
        match shows name with
        | some stop => .error stop
        | none => if debug then .error (.repeated name) else read true rest
    | .short letters =>
      match letters.head? with
      | some 'h' => .error (.help none)
      | some 'V' => .error .version
      | _ => .error (.unknownWord word)
    | .plain =>
      if word = helpName then .error (helpOn rest)
      else
        match CommandForm.find? word with
        | some form => form.read debug rest
        | none => .error (.unknownCommand word)

/-- **Reads a command line.** -/
def ofWords (words : List String) : Except UsageStop Invocation := read false words

end Invocation

end PinnedBench
