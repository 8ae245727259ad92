import PinnedBench.Fault
import PinnedBench.Impact.Projection

/-!
# Valid rates

The rates of an impact projection are valid when the three that are not whole numbers are finite and
not negative. The first that is not decides, in the order cost, electricity, carbon dioxide.
-/

namespace PinnedBench.Rates

/-- The rates that are not whole numbers, by the names they have in configuration files. -/
def named (r : Rates Double) : List (String × Double) :=
  [("cost_per_hour_eur", r.costPerHour), ("electricity_kwh_per_hour", r.electricityPerHour),
    ("co2_kg_per_kwh", r.co2PerKilowattHour)]

/-- Whether a rate is finite and not negative. -/
def admissible (value : Double) : Bool := value.isFinite && !decide (value < ((0 : Nat) : Double))

/-- Refuses the first rate that is not admissible. -/
def validate (r : Rates Double) : Except ParameterFault Unit :=
  match r.named.find? fun (_, value) => !admissible value with
  | none => .ok ()
  | some (name, value) => .error (.rate name value)

end PinnedBench.Rates
