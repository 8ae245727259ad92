import PinnedBench.Impact.Rates
import PinnedBench.Toml.Document

/-!
# Rates from a configuration file

The rates of an impact projection may be overridden by a TOML document. A key that is left out keeps
its standard rate, and keys and tables that are not known are ignored. Counts are whole numbers that
are not negative; the other rates may be written with a point or without.
-/

namespace PinnedBench.Rates

open Toml (Value)

/-- A whole number that is not negative. -/
def countOf : Value → Option UInt64
  | .integer n => if 0 ≤ n then some n.toNat.toUInt64 else none
  | _ => none

/-- A number. -/
def numberOf : Value → Option Double
  | .integer n => some (Decimal.toDouble (decide (n < 0)) ⟨n.natAbs, 0⟩)
  | .real x => some x
  | _ => none

/-- A text. -/
def textOf : Value → Option String
  | .string s => some s
  | _ => none

/-- The value under a key, or a standard one if the key is left out. -/
def entryOr {α : Type} (members : List (String × Value)) (key : String) (standard : α)
    (read : Value → Option α) : Except Toml.Fault α :=
  match members.lookup key with
  | none => .ok standard
  | some v =>
    match read v with
    | some a => .ok a
    | none => .error (.wrongType key)

/-- The rates that a table overrides. -/
def ofTable (members : List (String × Value)) : Except Toml.Fault (Rates Double) := do
  let std : Rates Double := .standard
  .ok { executionsPerDay := ← entryOr members "executions_per_day" std.executionsPerDay countOf
        daysPerYear := ← entryOr members "days_per_year" std.daysPerYear countOf
        costModel := ← entryOr members "cost_model" std.costModel textOf
        costPerHour := ← entryOr members "cost_per_hour_eur" std.costPerHour numberOf
        electricityPerHour :=
          ← entryOr members "electricity_kwh_per_hour" std.electricityPerHour numberOf
        co2PerKilowattHour := ← entryOr members "co2_kg_per_kwh" std.co2PerKilowattHour numberOf }

/-- **Reads rates** from a TOML document and validates them. -/
def ofToml (text : String) : Except Fault (Rates Double) := do
  let members ← (Toml.Document.ofText text).mapError fun e => .document "impact config" e.message
  let rates ← (ofTable members).mapError fun e => .document "impact config" e.message
  rates.validate.mapError .parameter
  .ok rates

end PinnedBench.Rates
