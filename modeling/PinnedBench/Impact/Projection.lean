import PinnedBench.Arithmetic

/-!
# Yearly impact

A time saved per execution is projected onto a year of executions: the hours saved, their cost, the
electricity they would have drawn and the carbon dioxide of that electricity. `Rates` holds the
constants of the projection and `Savings` its outcome. A time lost is a negative saving.
-/

namespace PinnedBench

/-- The constants of a projection. -/
structure Rates (α : Type) where
  /-- How often the program runs on a day. -/
  executionsPerDay : UInt64
  /-- How many days of the year it runs. -/
  daysPerYear : UInt64
  /-- The name of the cost model that the hourly rate belongs to. -/
  costModel : String
  /-- The cost of one hour, in euros. -/
  costPerHour : α
  /-- The electricity drawn in one hour, in kilowatt-hours. -/
  electricityPerHour : α
  /-- The carbon dioxide of one kilowatt-hour, in kilograms. -/
  co2PerKilowattHour : α
  deriving DecidableEq, Repr

/-- The yearly savings of a projection. -/
structure Savings (α : Type) where
  /-- The hours saved. -/
  hours : α
  /-- The euros saved. -/
  euros : α
  /-- The kilowatt-hours saved. -/
  kilowattHours : α
  /-- The kilograms of carbon dioxide avoided. -/
  co2 : α
  deriving DecidableEq, Repr

variable {α : Type} [Mul α] [Div α] [NatCast α] [OfScientific α]

/-- The rates used unless others are given. -/
def Rates.standard : Rates α where
  executionsPerDay := 100
  daysPerYear := 250
  costModel := "infra"
  costPerHour := 0.50
  electricityPerHour := 0.15
  co2PerKilowattHour := 0.475

/-- **The yearly savings** of a time saved per execution, in milliseconds. -/
def Savings.project (delta : α) (r : Rates α) : Savings α :=
  let runs := delta * (r.executionsPerDay.toNat : α) * (r.daysPerYear.toNat : α)
  let hours := runs / ((3600000 : Nat) : α)
  let kilowattHours := hours * r.electricityPerHour
  { hours := hours
    euros := hours * r.costPerHour
    kilowattHours := kilowattHours
    co2 := kilowattHours * r.co2PerKilowattHour }

end PinnedBench
