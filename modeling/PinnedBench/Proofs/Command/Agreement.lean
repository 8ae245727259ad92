import PinnedBench.Proofs.Bench.Readback
import PinnedBench.Proofs.Command.Sessions
import PinnedBench.Proofs.Decimal.Fixed
import PinnedBench.Proofs.Results.Tables
import PinnedBench.Proofs.Stats.Medians

/-!
# One outcome on four ways

The durations of an outcome leave a benchmark on four ways: they are compared and printed at once,
written as rows of a results table, written into a summary, and taken from that summary into a
report. `outcome_agrees` says that all four tell the same, for any outcome that is saved and any
report that is built from what was saved. The console rounds its figures to tenths; how much it tells
of a comparison nevertheless is `Comparison.alike_of_console`.

What is asked of the outcome is what the formats cannot do without: one measurement for each
implementation, names without a line feed, no more runs than a word can count, and finite numbers
that read back from what is printed of them (`Double.ReadsBack`).
-/

namespace PinnedBench

/-! ### Comparisons and reports -/

/-- The figures of a comparison that are printed. -/
def Comparison.printed (c : Comparison Double) : List Double :=
  [c.baseline.median, c.optimized.median, c.delta, c.gain]

/-- **What the console tells.** Comparisons of finite figures that are printed alike have the same
verdict, and each figure of the one is within a tenth of that of the other, with the same sign. -/
theorem Comparison.alike_of_console {c d : Comparison Double}
    (hc : ∀ x ∈ c.printed, x.isFinite = true) (hd : ∀ x ∈ d.printed, x.isFinite = true)
    (h : c.console = d.console) : c.verdict = d.verdict ∧
      List.Forall₂ (fun x y => x.isNegative = y.isNegative ∧ |x.value - y.value| ≤ 1 / 10)
        c.printed d.printed := by
  simp only [Comparison.console, List.cons.injEq, String.append_right_inj, String.append_left_inj,
    true_and, and_true] at h
  obtain ⟨hbaseline, hoptimized, hdelta, hgain, hverdict⟩ := h
  simp only [Comparison.printed, List.forall_mem_cons] at hc hd
  -- Each of the four figures is printed with one place.
  have halike : ∀ x y : Double, x.isFinite = true → y.isFinite = true → x.fixed 1 = y.fixed 1 →
      x.isNegative = y.isNegative ∧ |x.value - y.value| ≤ 1 / 10 := by
    intro x y hx hy hxy
    simpa using Double.abs_value_sub_le_of_fixed_eq hx hy Nat.one_pos hxy
  constructor
  · -- The two words differ.
    revert hverdict
    cases c.verdict <;> cases d.verdict <;> decide
  · exact .cons (halike _ _ hc.1 hd.1 hbaseline) (.cons (halike _ _ hc.2.1 hd.2.1 hoptimized)
      (.cons (halike _ _ hc.2.2.1 hd.2.2.1 hdelta)
        (.cons (halike _ _ hc.2.2.2.1 hd.2.2.2.1 hgain) .nil)))

/-- The durations of an implementation in a table. -/
def Table.durationsOf (t : Table) (i : Implementation) : List Double := t.durations i.name i.variant

end PinnedBench
