import PinnedBench.Command.Line
import PinnedBench.Report.Basic

/-!
# The usage of the program

`UsageStop.text` is what is printed when reading a command line ends without a command: the usage,
that of the program or that of a command, the version, or what is wrong with the command line.
-/

namespace PinnedBench

/-- The name of the program. -/
def programName : String := "chainbench"

/-- The name of the program with its version. -/
def versionText : String := s!"{programName} {formatVersion}"

/-! ### Columns -/

/-- Rows of two columns, the second one starting at the same place in all of them. -/
def columns (rows : List (String × String)) : List String :=
  let width := rows.foldl (fun w row => max w row.1.length) 0
  rows.map fun (left, right) =>
    if right.isEmpty then left
    else left ++ String.ofList (List.replicate (width + 2 - left.length) ' ') ++ right

/-- An item with what stands for its value. -/
def Item.form {σ : Type} (i : Item σ) : String :=
  match i.effect with
  | .flag _ => s!"--{i.name}"
  | .value _ => s!"--{i.name} <{i.placeholder}>"

/-- What an item is for, the value that it has unless it is given, and its other name. -/
def Item.description {σ : Type} (i : Item σ) : String :=
  " ".intercalate ((if i.help.isEmpty then [] else [i.help]) ++
    (match i.fallback with
      | some text => [s!"[default: {text}]"]
      | none => []) ++
    (match i.secondName with
      | some name => [s!"[aliases: --{name}]"]
      | none => []))

/-- The rows of items, with one for the flag that shows the usage. -/
def itemRows {σ : Type} (items : List (Item σ)) : List (String × String) :=
  items.map (fun i => ("      " ++ i.form, i.description)) ++ [("  -h, --help", "Print help")]

/-! ### Usage -/

/-- The usage of a command. -/
def CommandForm.usage (c : CommandForm) : List String :=
  let required := (c.items.filter (·.required)).map fun i => " " ++ i.form
  [c.help, "", s!"Usage: {programName} {c.name} [OPTIONS]" ++ String.join required, "",
    "Options:"] ++
    columns (itemRows c.items)

/-- The usage of the program. -/
def programUsage : List String :=
  ["Reproducible A/B benchmarks over hash-locked datasets", "",
    s!"Usage: {programName} [OPTIONS] <COMMAND>", "", "Commands:"] ++
    columns (CommandForm.all.map (fun c => ("  " ++ c.name, c.help)) ++
      [("  " ++ helpName, "Print this message or the help of the given subcommand(s)")]) ++
    ["", "Options:"] ++
    columns (itemRows [debugItem] ++ [("  -V, --version", "Print version")])

/-- The usage of a command, or of the program if there is no such command. -/
def usageOf (command : Option String) : List String :=
  match command.bind CommandForm.find? with
  | some form => form.usage
  | none => programUsage

namespace UsageStop

/-- Whether the command line asks for what is printed. -/
def isAnswer : UsageStop → Bool
  | help _ => true
  | version => true
  | _ => false

/-- What is wrong with a command line. -/
def fault : UsageStop → String
  | unknownCommand word => s!"unrecognized subcommand '{word}'"
  | unknownWord word => s!"unexpected argument '{word}' found"
  | needlessValue item => s!"unexpected value for '--{item}' found; no more were expected"
  | missingValue item => s!"a value is required for '--{item}' but none was supplied"
  | refusedValue item value => s!"invalid value '{value}' for '--{item}'"
  | malformedValue item value => s!"invalid value '{value}' for '--{item}': no such number"
  | repeated item => s!"the argument '--{item}' cannot be used multiple times"
  | missingItem item => s!"the argument '--{item}' was not provided"
  | _ => "a subcommand is required but one was not provided"

/-- **What is printed.** -/
def text (s : UsageStop) : String :=
  let lines := match s with
    | help command => usageOf command
    | version => [versionText]
    | nothing => programUsage
    | _ => ["error: " ++ s.fault, "", "For more information, try '--help'."]
  String.join (lines.map (· ++ "\n"))

end UsageStop

end PinnedBench
