import PinnedBench.Profile.Encoding
import PinnedBench.Report.Basic

/-!
# Reports as JSON

A report is written as one JSON document, and read back from one. Each part has the names of its
fields, a function `toJson` and a decoder that asks for the fields in the same order.

What may be left out when a report is read: the commit, which is then nothing; constants of the
projection, which then have their standard values; and the profiles, which are also left out when a
report without them is written. A number that is not finite is written as nothing and is refused
where a number has to stand.
-/

namespace PinnedBench

/-! ### Statistics -/

namespace Statistics

/-- The names of the fields. -/
def fieldNames : List String := ["median", "mean", "std", "cv_pct", "p10", "p90"]

/-- Statistics as a JSON value. -/
def toJson (s : Statistics Double) : Json :=
  .object [("median", .ofDouble s.median), ("mean", .ofDouble s.mean),
    ("std", .ofDouble s.deviation), ("cv_pct", .ofDouble s.variation), ("p10", .ofDouble s.p10),
    ("p90", .ofDouble s.p90)]

/-- Reads statistics. -/
def decode : Json.Decoder (Statistics Double) := fun levels t => do
  let f ← Json.Tree.fields fieldNames levels t
  .ok { median := ← f.required "median" .double
        mean := ← f.required "mean" .double
        deviation := ← f.required "std" .double
        variation := ← f.required "cv_pct" .double
        p10 := ← f.required "p10" .double
        p90 := ← f.required "p90" .double }

end Statistics

/-- The verdicts by their words. -/
def Verdict.named : List (String × Verdict) :=
  [Verdict.conclusive, Verdict.inconclusive].map fun v => (v.word, v)

namespace Finding

/-- The names of the fields. -/
def fieldNames : List String :=
  ["baseline_stats", "optimized_stats", "delta_ms", "gain_pct", "verdict", "notes"]

/-- The comparison as a JSON value. -/
def toJson (x : Finding) : Json :=
  let c := x.comparison
  .object [("baseline_stats", c.baseline.toJson), ("optimized_stats", c.optimized.toJson),
    ("delta_ms", .ofDouble c.delta), ("gain_pct", .ofDouble c.gain),
    ("verdict", .string c.verdict.word), ("notes", .string x.notes)]

/-- Reads a comparison. -/
def decode : Json.Decoder Finding := fun levels t => do
  let f ← Json.Tree.fields fieldNames levels t
  .ok { comparison :=
          { baseline := ← f.required "baseline_stats" Statistics.decode
            optimized := ← f.required "optimized_stats" Statistics.decode
            delta := ← f.required "delta_ms" .double
            gain := ← f.required "gain_pct" .double
            verdict := ← f.required "verdict" (.variant Verdict.named) }
        notes := ← f.required "notes" .string }

end Finding

/-! ### Impact -/

namespace Rates

/-- The names of the fields. -/
def fieldNames : List String :=
  ["executions_per_day", "days_per_year", "cost_model", "cost_per_hour_eur",
    "electricity_kwh_per_hour", "co2_kg_per_kwh"]

/-- Rates as a JSON value. -/
def toJson (r : Rates Double) : Json :=
  .object [("executions_per_day", .ofWord r.executionsPerDay),
    ("days_per_year", .ofWord r.daysPerYear), ("cost_model", .string r.costModel),
    ("cost_per_hour_eur", .ofDouble r.costPerHour),
    ("electricity_kwh_per_hour", .ofDouble r.electricityPerHour),
    ("co2_kg_per_kwh", .ofDouble r.co2PerKilowattHour)]

/-- Reads rates; one that is left out has its standard value. -/
def decode : Json.Decoder (Rates Double) := fun levels t => do
  let f ← Json.Tree.fields fieldNames levels t
  let std : Rates Double := standard
  .ok { executionsPerDay := ← f.defaulted "executions_per_day" std.executionsPerDay .word
        daysPerYear := ← f.defaulted "days_per_year" std.daysPerYear .word
        costModel := ← f.defaulted "cost_model" std.costModel .string
        costPerHour := ← f.defaulted "cost_per_hour_eur" std.costPerHour .double
        electricityPerHour :=
          ← f.defaulted "electricity_kwh_per_hour" std.electricityPerHour .double
        co2PerKilowattHour := ← f.defaulted "co2_kg_per_kwh" std.co2PerKilowattHour .double }

end Rates

namespace Savings

/-- The names of the fields. -/
def fieldNames : List String :=
  ["time_saved_hours_per_year", "cost_saved_eur_per_year", "electricity_saved_kwh_per_year",
    "co2_avoided_kg_per_year"]

/-- Savings as a JSON value. -/
def toJson (s : Savings Double) : Json :=
  .object [("time_saved_hours_per_year", .ofDouble s.hours),
    ("cost_saved_eur_per_year", .ofDouble s.euros),
    ("electricity_saved_kwh_per_year", .ofDouble s.kilowattHours),
    ("co2_avoided_kg_per_year", .ofDouble s.co2)]

/-- Reads savings. -/
def decode : Json.Decoder (Savings Double) := fun levels t => do
  let f ← Json.Tree.fields fieldNames levels t
  .ok { hours := ← f.required "time_saved_hours_per_year" .double
        euros := ← f.required "cost_saved_eur_per_year" .double
        kilowattHours := ← f.required "electricity_saved_kwh_per_year" .double
        co2 := ← f.required "co2_avoided_kg_per_year" .double }

end Savings

namespace Impact

/-- The names of the fields. -/
def fieldNames : List String := ["inputs", "outputs"]

/-- An impact as a JSON value. -/
def toJson (x : Impact) : Json :=
  .object [("inputs", x.rates.toJson), ("outputs", x.savings.toJson)]

/-- Reads an impact. -/
def decode : Json.Decoder Impact := fun levels t => do
  let f ← Json.Tree.fields fieldNames levels t
  .ok { rates := ← f.required "inputs" Rates.decode
        savings := ← f.required "outputs" Savings.decode }

end Impact

/-! ### Provenance -/

namespace Machine

/-- The names of the fields. -/
def fieldNames : List String := ["hostname", "os", "kernel", "cpu_model"]

/-- A machine as a JSON value. -/
def toJson (x : Machine) : Json :=
  .object [("hostname", .string x.hostName), ("os", .string x.system), ("kernel", .string x.kernel),
    ("cpu_model", .string x.processor)]

/-- Reads a machine. -/
def decode : Json.Decoder Machine := fun levels t => do
  let f ← Json.Tree.fields fieldNames levels t
  .ok { hostName := ← f.required "hostname" .string
        system := ← f.required "os" .string
        kernel := ← f.required "kernel" .string
        processor := ← f.required "cpu_model" .string }

end Machine

namespace Provenance

/-- The names of the fields. -/
def fieldNames : List String :=
  ["report_id", "generated_at", "app_version", "git_commit", "machine", "dataset"]

/-- A provenance as a JSON value. -/
def toJson (x : Provenance) : Json :=
  .object [("report_id", .string x.id), ("generated_at", .string x.generatedAt),
    ("app_version", .string x.version), ("git_commit", .ofOption .string x.commit),
    ("machine", x.machine.toJson), ("dataset", x.dataset.toJson)]

/-- Reads a provenance. -/
def decode : Json.Decoder Provenance := fun levels t => do
  let f ← Json.Tree.fields fieldNames levels t
  .ok { id := ← f.required "report_id" .string
        generatedAt := ← f.required "generated_at" .string
        version := ← f.required "app_version" .string
        commit := ← f.nullable "git_commit" .string
        machine := ← f.required "machine" Machine.decode
        dataset := ← f.required "dataset" DatasetIdentity.decode }

end Provenance

/-! ### Setup -/

namespace Implementation

/-- The names of the fields. -/
def fieldNames : List String := ["name", "variant"]

/-- An implementation as a JSON value. -/
def toJson (i : Implementation) : Json :=
  .object [("name", .string i.name), ("variant", .string i.variant)]

/-- Reads an implementation. -/
def decode : Json.Decoder Implementation := fun levels t => do
  let f ← Json.Tree.fields fieldNames levels t
  .ok { name := ← f.required "name" .string
        variant := ← f.required "variant" .string }

end Implementation

namespace Settling

/-- The names of the fields. -/
def fieldNames : List String := ["enabled", "mode", "waited_seconds"]

/-- A settling as a JSON value. -/
def toJson (x : Settling) : Json :=
  .object [("enabled", .boolean x.enabled), ("mode", .string x.mode),
    ("waited_seconds", .ofDouble x.waited)]

/-- Reads a settling. -/
def decode : Json.Decoder Settling := fun levels t => do
  let f ← Json.Tree.fields fieldNames levels t
  .ok { enabled := ← f.required "enabled" .boolean
        mode := ← f.required "mode" .string
        waited := ← f.required "waited_seconds" .double }

end Settling

namespace Setup

/-- The names of the fields. -/
def fieldNames : List String :=
  ["command_line", "warmup", "runs", "repeat", "stability", "single_thread", "cpu_affinity",
    "impls"]

/-- An environment as a JSON value. -/
def environmentJson (settings : Keyed String) : Json :=
  .object [("env_vars", .ofKeyed .string settings)]

/-- Reads an environment. -/
def decodeEnvironment : Json.Decoder (Keyed String) := fun levels t => do
  let f ← Json.Tree.fields ["env_vars"] levels t
  f.required "env_vars" (.keyed .string)

/-- A setup as a JSON value. -/
def toJson (x : Setup) : Json :=
  .object [("command_line", .string x.commandLine), ("warmup", .ofHalfWord x.warmup),
    ("runs", .ofHalfWord x.runs), ("repeat", .ofHalfWord x.repetitions),
    ("stability", x.settling.toJson), ("single_thread", environmentJson x.environment),
    ("cpu_affinity", .ofHalfWord x.processor),
    ("impls", .array (x.implementations.map Implementation.toJson))]

/-- Reads a setup. -/
def decode : Json.Decoder Setup := fun levels t => do
  let f ← Json.Tree.fields fieldNames levels t
  .ok { commandLine := ← f.required "command_line" .string
        warmup := ← f.required "warmup" .halfWord
        runs := ← f.required "runs" .halfWord
        repetitions := ← f.required "repeat" .halfWord
        settling := ← f.required "stability" Settling.decode
        environment := ← f.required "single_thread" decodeEnvironment
        processor := ← f.required "cpu_affinity" .halfWord
        implementations := ← f.required "impls" (.list Implementation.decode) }

end Setup

/-! ### Runs -/

/-- The word for the end of a run. -/
def RunStatus.word : RunStatus → String
  | success => "success"
  | failure => "failure"

/-- The ends of runs by their words. -/
def RunStatus.named : List (String × RunStatus) :=
  [RunStatus.success, RunStatus.failure].map fun s => (s.word, s)

namespace RunFailure

/-- The names of the fields. -/
def fieldNames : List String := ["run", "cause"]

/-- A failure as a JSON value. -/
def toJson (x : RunFailure) : Json := .object [("run", .ofWord x.run), ("cause", .string x.cause)]

/-- Reads a failure. -/
def decode : Json.Decoder RunFailure := fun levels t => do
  let f ← Json.Tree.fields fieldNames levels t
  .ok { run := ← f.required "run" .word
        cause := ← f.required "cause" .string }

end RunFailure

namespace RunRecord

/-- The names of the fields. -/
def fieldNames : List String := ["impl", "variant", "samples", "status", "errors"]

/-- A record as a JSON value. -/
def toJson (x : RunRecord) : Json :=
  .object [("impl", .string x.implementation), ("variant", .string x.variant),
    ("samples", .ofDoubles x.durations),
    ("status", .array (x.status.map fun s => .string s.word)),
    ("errors", .array (x.failures.map RunFailure.toJson))]

/-- Reads a record. -/
def decode : Json.Decoder RunRecord := fun levels t => do
  let f ← Json.Tree.fields fieldNames levels t
  .ok { implementation := ← f.required "impl" .string
        variant := ← f.required "variant" .string
        durations := ← f.required "samples" (.list .double)
        status := ← f.required "status" (.list (.variant RunStatus.named))
        failures := ← f.required "errors" (.list RunFailure.decode) }

end RunRecord

/-! ### Artifacts -/

namespace Artifacts

/-- The names of the fields. -/
def fieldNames : List String := ["results_csv", "summary_json", "prometheus_url", "grafana_url"]

/-- Artifacts as a JSON value. -/
def toJson (x : Artifacts) : Json :=
  .object [("results_csv", .string x.results), ("summary_json", .string x.summary),
    ("prometheus_url", .string x.metrics), ("grafana_url", .string x.dashboards)]

/-- Reads artifacts. -/
def decode : Json.Decoder Artifacts := fun levels t => do
  let f ← Json.Tree.fields fieldNames levels t
  .ok { results := ← f.required "results_csv" .string
        summary := ← f.required "summary_json" .string
        metrics := ← f.required "prometheus_url" .string
        dashboards := ← f.required "grafana_url" .string }

end Artifacts

/-! ### Reports -/

namespace Report

/-- The names of the fields. -/
def fieldNames : List String :=
  ["schema_version", "meta", "benchmark", "runs", "summary", "evidence", "impact", "artifacts",
    "resource_profiles"]

/-- The two sides as a JSON value. -/
def runsJson (baseline optimized : RunRecord) : Json :=
  .object [("baseline", baseline.toJson), ("optimized", optimized.toJson)]

/-- Reads the two sides. -/
def decodeRuns : Json.Decoder (RunRecord × RunRecord) := fun levels t => do
  let f ← Json.Tree.fields ["baseline", "optimized"] levels t
  .ok (← f.required "baseline" RunRecord.decode, ← f.required "optimized" RunRecord.decode)

/-- The profiles as a field, if there are any. -/
def profilesField : Option (Keyed (Profile Double)) → List (String × Json)
  | none => []
  | some profiles => [("resource_profiles", .ofKeyed Profile.toJson profiles)]

/-- **A report as a JSON value.** -/
def toJson (r : Report) : Json :=
  .object ([("schema_version", .string r.schema), ("meta", r.provenance.toJson),
    ("benchmark", r.setup.toJson), ("runs", runsJson r.baseline r.optimized),
    ("summary", r.finding.toJson), ("evidence", r.evidence), ("impact", r.impact.toJson),
    ("artifacts", r.artifacts.toJson)] ++ profilesField r.profiles)

/-- **Reads a report.** -/
def decode : Json.Decoder Report := fun levels t => do
  let f ← Json.Tree.fields fieldNames levels t
  let schema ← f.required "schema_version" .string
  let provenance ← f.required "meta" Provenance.decode
  let setup ← f.required "benchmark" Setup.decode
  let (baseline, optimized) ← f.required "runs" decodeRuns
  .ok { schema := schema
        provenance := provenance
        setup := setup
        baseline := baseline
        optimized := optimized
        finding := ← f.required "summary" Finding.decode
        evidence := ← f.required "evidence" .any
        impact := ← f.required "impact" Impact.decode
        artifacts := ← f.required "artifacts" Artifacts.decode
        profiles := ← f.defaulted "resource_profiles" none (.orNull (.keyed Profile.decode)) }

/-- The document of a report. -/
def document (r : Report) : String := r.toJson.pretty

/-- Reads a report from a JSON document. -/
def ofText (text : String) : Except Fault Report :=
  (Json.decodeText decode text).mapError fun e => .document "report" e.message

end Report

end PinnedBench
