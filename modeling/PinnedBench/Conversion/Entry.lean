import PinnedBench.Fault
import PinnedBench.Json.Decoder
import PinnedBench.Json.Printer

/-!
# Collected figures

Some benchmarks keep a single row of figures per implementation. A `Collection` holds such rows in
the order in which they were collected; `Collection.find` takes the first one under a name. It is
read from a JSON document.
-/

namespace PinnedBench

/-- The figures of one implementation. -/
structure Entry (α : Type) where
  /-- The name of the implementation. -/
  implementation : String
  /-- The language it is written in. -/
  language : String
  /-- The processor time that it takes, in milliseconds. -/
  time : α
  /-- The processor load in percent. -/
  load : α
  /-- The most memory in use, in megabytes. -/
  memory : α
  /-- How many times faster than the baseline it is. -/
  speedup : α
  /-- The number of processor cores in use. -/
  cores : Option UInt32
  deriving DecidableEq, Repr

/-- The figures of some implementations. -/
structure Collection where
  /-- Where the figures come from. -/
  source : Option String
  /-- The figures. -/
  entries : List (Entry Double)
  deriving DecidableEq, Repr

namespace Entry

/-- The key of an entry among profiles. -/
def key {α : Type} (e : Entry α) : String := s!"{e.language}/{e.implementation}"

/-- The names of the fields. -/
def fieldNames : List String :=
  ["implementation", "code_language", "cpu_processing_time_ms", "cpu_usage_percent", "max_ram_mb",
    "speedup_vs_baseline", "cores_used"]

/-- An entry as a JSON value. -/
def toJson (e : Entry Double) : Json :=
  .object [("implementation", .string e.implementation), ("code_language", .string e.language),
    ("cpu_processing_time_ms", .ofDouble e.time), ("cpu_usage_percent", .ofDouble e.load),
    ("max_ram_mb", .ofDouble e.memory), ("speedup_vs_baseline", .ofDouble e.speedup),
    ("cores_used", .ofOption .ofHalfWord e.cores)]

/-- Reads an entry. -/
def decode : Json.Decoder (Entry Double) := fun levels t => do
  let f ← Json.Tree.fields fieldNames levels t
  .ok { implementation := ← f.required "implementation" .string
        language := ← f.required "code_language" .string
        time := ← f.required "cpu_processing_time_ms" .double
        load := ← f.required "cpu_usage_percent" .double
        memory := ← f.required "max_ram_mb" .double
        speedup := ← f.required "speedup_vs_baseline" .double
        cores := ← f.defaulted "cores_used" none (.orNull .halfWord) }

end Entry

/-- The first entry of an implementation. -/
def findEntry {α : Type} (entries : List (Entry α)) (name : String) : Except Fault (Entry α) :=
  match entries.find? fun e => e.implementation == name with
  | some e => .ok e
  | none => .error (.unknownImplementation name)

namespace Collection

/-- The first entry of an implementation. -/
def find (x : Collection) (name : String) : Except Fault (Entry Double) := findEntry x.entries name

/-- The names of the fields. -/
def fieldNames : List String := ["source_summary", "entries"]

/-- A collection as a JSON value. -/
def toJson (x : Collection) : Json :=
  .object [("source_summary", .ofOption .string x.source),
    ("entries", .array (x.entries.map Entry.toJson))]

/-- Reads a collection. -/
def decode : Json.Decoder Collection := fun levels t => do
  let f ← Json.Tree.fields fieldNames levels t
  .ok { source := ← f.defaulted "source_summary" none (.orNull .string)
        entries := ← f.required "entries" (.list Entry.decode) }

/-- **Reads a collection** from a JSON document. -/
def ofText (text : String) : Except Fault Collection :=
  (Json.decodeText decode text).mapError fun e => .document "converter input" e.message

end Collection

end PinnedBench
