import PinnedBench.Stats.Statistics

/-!
# Comparing two sample sets

`Comparison.of baseline optimized` puts the statistics of two sample sets side by side, with the
difference of the medians, the gain in percent of the baseline median, and a verdict.

The verdict says whether the gain can be trusted given the noise of the measurement. Two sides that
both vary by less than 5 % are conclusive; otherwise one side that varies by more than 15 % makes
the comparison inconclusive. Both bounds are strict.
-/

namespace PinnedBench

/-- Whether a measured gain can be trusted. -/
inductive Verdict where
  /-- The measurement is stable enough. -/
  | conclusive
  /-- At least one side is too noisy. -/
  | inconclusive
  deriving DecidableEq, Repr

/-- The word for a verdict. -/
def Verdict.word : Verdict → String
  | conclusive => "conclusive"
  | inconclusive => "inconclusive"

/-- Two sample sets compared. -/
structure Comparison (α : Type) where
  /-- The statistics of the baseline. -/
  baseline : Statistics α
  /-- The statistics of the optimized side. -/
  optimized : Statistics α
  /-- The baseline median less the optimized one: negative when the optimized side is slower. -/
  delta : α
  /-- The difference in percent of the baseline median. -/
  gain : α
  /-- Whether the difference can be trusted. -/
  verdict : Verdict
  deriving DecidableEq, Repr

variable {α : Type} [Add α] [Sub α] [Mul α] [Div α] [NatCast α] [OfScientific α]
  [LT α] [DecidableLT α] [LE α] [DecidableLE α] [Analysis α]

/-- The verdict of two coefficients of variation, in percent. -/
def Verdict.of (baseline optimized : α) : Verdict :=
  let stable : α := ((5 : Nat) : α)
  let noisy : α := ((15 : Nat) : α)
  if baseline < stable ∧ optimized < stable then .conclusive
  else if noisy < baseline ∨ noisy < optimized then .inconclusive
  else .conclusive

/-- A difference in percent of the baseline median, zero unless that median is positive. -/
def gainPercent (delta median : α) : α :=
  if ((0 : Nat) : α) < median then delta / median * ((100 : Nat) : α) else ((0 : Nat) : α)

/-- **The comparison of two sample sets.** -/
def Comparison.of (baseline optimized : List α) : Comparison α :=
  let b := Statistics.of baseline
  let o := Statistics.of optimized
  let delta := b.median - o.median
  { baseline := b
    optimized := o
    delta := delta
    gain := gainPercent delta b.median
    verdict := Verdict.of b.variation o.variation }

end PinnedBench
