import PinnedBench.Double
import PinnedBench.Json.Decoder
import PinnedBench.Profile.Series

/-!
# Resource profiles as JSON

A profile is written as an object with its summary and its curve. Every field is there when it is
written and has to be there when it is read.
-/

namespace PinnedBench

namespace Summary

/-- The names of the fields. -/
def fieldNames : List String :=
  ["cpu_avg", "cpu_max", "ram_avg_mb", "ram_max_mb", "io_total_mb", "gpu_avg", "duration_ms",
    "sample_count"]

/-- The summary as a JSON value. -/
def toJson (s : Summary Double) : Json :=
  .object [("cpu_avg", .ofDouble s.cpuAverage), ("cpu_max", .ofDouble s.cpuPeak),
    ("ram_avg_mb", .ofDouble s.ramAverage), ("ram_max_mb", .ofDouble s.ramPeak),
    ("io_total_mb", .ofDouble s.diskTotal), ("gpu_avg", .ofDouble s.gpuAverage),
    ("duration_ms", .ofDouble s.duration), ("sample_count", .ofWord s.count)]

/-- Reads a summary. -/
def decode : Json.Decoder (Summary Double) := fun levels t => do
  let f ← Json.Tree.fields fieldNames levels t
  .ok { cpuAverage := ← f.required "cpu_avg" .double
        cpuPeak := ← f.required "cpu_max" .double
        ramAverage := ← f.required "ram_avg_mb" .double
        ramPeak := ← f.required "ram_max_mb" .double
        diskTotal := ← f.required "io_total_mb" .double
        gpuAverage := ← f.required "gpu_avg" .double
        duration := ← f.required "duration_ms" .double
        count := ← f.required "sample_count" .word }

end Summary

namespace Curve

/-- The names of the fields. -/
def fieldNames : List String := ["timestamps", "cpu", "ram", "io", "gpu"]

/-- The curve as a JSON value. -/
def toJson (c : Curve Double) : Json :=
  .object [("timestamps", .ofDoubles c.times), ("cpu", .ofDoubles c.cpu), ("ram", .ofDoubles c.ram),
    ("io", .ofDoubles c.disk), ("gpu", .ofDoubles c.gpu)]

/-- Reads a curve. -/
def decode : Json.Decoder (Curve Double) := fun levels t => do
  let f ← Json.Tree.fields fieldNames levels t
  .ok { times := ← f.required "timestamps" (.list .double)
        cpu := ← f.required "cpu" (.list .double)
        ram := ← f.required "ram" (.list .double)
        disk := ← f.required "io" (.list .double)
        gpu := ← f.required "gpu" (.list .double) }

end Curve

namespace Profile

/-- The names of the fields. -/
def fieldNames : List String := ["summary", "curve"]

/-- The profile as a JSON value. -/
def toJson (p : Profile Double) : Json :=
  .object [("summary", p.summary.toJson), ("curve", p.curve.toJson)]

/-- Reads a profile. -/
def decode : Json.Decoder (Profile Double) := fun levels t => do
  let f ← Json.Tree.fields fieldNames levels t
  .ok { summary := ← f.required "summary" Summary.decode
        curve := ← f.required "curve" Curve.decode }

end Profile

end PinnedBench
