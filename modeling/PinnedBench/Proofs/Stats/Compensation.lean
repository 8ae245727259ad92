import Mathlib
import PinnedBench.Stats.Statistics
import PinnedBench.Proofs.Double.Signs

/-!
# Compensated sums of stored numbers

What a compensated sum puts aside after a term is exactly what rounding has lost of it, since the
loss is found from the larger one of the sum and the term (`Double.value_loss`). So a sum of stored
numbers is that of their values in which only the running sum and the losses are rounded
(`Compensated.next`), as long as the result is finite (`value_stableSum`).

Three things follow for lists of any length. Each is kept by one more term (`NotBelow.next`,
`Within.next`, `UpTo.next`), and so by a whole sum:

* A finite sum of terms that are not negative is not negative: the losses never outweigh the running
  sum.
* A sum of terms that are not too large is finite: the running sum and the losses come to rest at
  `2 ^ 53` times the bound, where one term more is rounded away.
* A sum of terms up to one is at most their count as it is rounded, so that their mean is at most
  one.
-/

namespace PinnedBench

open Rounding

/-! ### Sums of which every step is rounded -/

namespace Compensated

/-- **One more term** where nothing but the sum and the loss is rounded. -/
def next (s : Compensated ℚ) (v : ℚ) : Compensated ℚ :=
  ⟨rounded (s.sum + v), rounded (s.lost + (s.sum + v - rounded (s.sum + v)))⟩

/-- The state before the first term. -/
def start : Compensated ℚ := ⟨0, 0⟩

variable {s : Compensated ℚ} {v : ℚ} {terms : List ℚ}

/-- What every term keeps is kept by a list of them. -/
theorem foldl_next {P : Compensated ℚ → Prop} {Q : ℚ → Prop}
    (hnext : ∀ {s v}, P s → Q v → P (next s v)) (hs : P s) (hterms : ∀ v ∈ terms, Q v) :
    P (terms.foldl next s) := by
  -- On the terms, from any state, as each of them changes it.
  induction terms generalizing s with
  | nil => exact hs
  | cons v terms ih =>
    exact ih (hnext hs (hterms v List.mem_cons_self)) fun w hw =>
      hterms w (List.mem_cons_of_mem v hw)

/-- **A state that is not below zero**: the sum is not, and the loss does not outweigh it. -/
structure NotBelow (s : Compensated ℚ) : Prop where
  /-- The running sum is not negative. -/
  sum_nonneg : 0 ≤ s.sum
  /-- What has been lost is not below what is there. -/
  neg_sum_le : -s.sum ≤ s.lost

/-- The state before the first term is not below zero. -/
theorem notBelow_start : NotBelow start := ⟨le_rfl, by rw [start, neg_zero]⟩

/-- **One more term** that is not negative keeps the state from falling below zero. -/
theorem NotBelow.next (hs : NotBelow s) (hv : 0 ≤ v) : NotBelow (s.next v) := by
  obtain ⟨hsum, hlost⟩ := hs
  refine ⟨le_rounded storable_zero (add_nonneg hsum hv), ?_⟩
  -- What is lost now and the new sum are together what the sum was and the term, so the loss cannot
  -- outweigh the new sum.
  have hloss : -rounded (s.sum + v) ≤ s.lost + (s.sum + v - rounded (s.sum + v)) := by linarith
  exact le_rounded (storable_rounded _).neg hloss

/-- **A state that is not larger** than `2 ^ 53` units of `2 ^ q`. -/
structure Within (q : Int) (s : Compensated ℚ) : Prop where
  /-- The running sum has been rounded. -/
  storable : Storable s.sum
  /-- The running sum is not larger. -/
  abs_sum_le : |s.sum| ≤ 2 ^ (q + 53)
  /-- What has been lost is not larger. -/
  abs_lost_le : |s.lost| ≤ 2 ^ (q + 53)

/-- The state before the first term is within any bound. -/
theorem within_start (q : Int) : Within q start :=
  ⟨storable_zero, by rw [start, abs_zero]; positivity, by rw [start, abs_zero]; positivity⟩

/-- **One more term** that is not too large keeps the state in its bound, where rounding takes the
rest away. -/
theorem Within.next {q : Int} (hs : Within q s) (hq : -1074 ≤ q) (hv : |v| ≤ 2 ^ q) :
    Within q (s.next v) := by
  obtain ⟨hstorable, hsum, hlost⟩ := hs
  refine ⟨storable_rounded _, abs_rounded_le_of_saturated hq ?_, abs_rounded_le_of_saturated hq ?_⟩
  · exact (abs_add_le _ _).trans (add_le_add hsum hv)
  · -- What a term loses is not more than the term.
    exact (abs_add_le _ _).trans (add_le_add hlost ((abs_loss_le hstorable).trans hv))

/-- The same with the opposite signs. -/
def negated (s : Compensated ℚ) : Compensated ℚ := ⟨-s.sum, -s.lost⟩

/-- Terms with the opposite signs lead to the opposite state. -/
theorem negated_next (s : Compensated ℚ) (v : ℚ) :
    (s.next v).negated = s.negated.next (-v) := by
  have hsum : rounded (-s.sum + -v) = -rounded (s.sum + v) := by rw [← neg_add, rounded_neg]
  have hlost : -s.lost + (-s.sum + -v - -rounded (s.sum + v)) =
      -(s.lost + (s.sum + v - rounded (s.sum + v))) := by ring
  rw [negated, negated, Compensated.next, Compensated.next, hsum, hlost, rounded_neg]

theorem Within.negated {q : Int} (hs : Within q s) : Within q s.negated :=
  ⟨hs.storable.neg, (abs_neg _).trans_le hs.abs_sum_le, (abs_neg _).trans_le hs.abs_lost_le⟩

/-! ### Terms up to one -/

/-- How much is lost of `k` terms up to one: one half of each, until the sum has no room for halves.
-/
def room (k : Nat) : ℚ := max (k / 2) (k - 2 ^ 52)

/-- One term more makes room for one half more. -/
theorem room_add_half_le (k : Nat) : room k + 1 / 2 ≤ room (k + 1) := by
  have hhalf := le_max_left (((k + 1 : Nat) : ℚ) / 2) ((k + 1 : Nat) - 2 ^ 52)
  have hmost := le_max_right (((k + 1 : Nat) : ℚ) / 2) ((k + 1 : Nat) - 2 ^ 52)
  push_cast at hhalf hmost
  rw [room, room]
  push_cast
  rcases max_choice ((k : ℚ) / 2) (k - 2 ^ 52) with h | h
  · rw [h]
    linarith
  · rw [h]
    linarith

/-- While the sum has room for halves, each term loses at most one half. -/
theorem room_of_le {k : Nat} (h : k ≤ 2 ^ 53) : room k = k / 2 := by
  have hk : (k : ℚ) ≤ 2 ^ 53 := by exact_mod_cast h
  exact max_eq_left (by linarith)

/-- After that the sum itself is large, and only the count is left. -/
theorem room_of_ge {k : Nat} (h : 2 ^ 53 ≤ k) : room k = k - 2 ^ 52 := by
  have hk : (2 : ℚ) ^ 53 ≤ k := by exact_mod_cast h
  exact max_eq_right (by linarith)

/-- The room can be stored unless a loss never comes to it. -/
theorem storable_room {k : Nat} (h : room k ≤ 2 ^ 53) : Storable (room k) := by
  -- Either it is a count of halves, or a difference of whole numbers; both fit a significand.
  rcases le_total k (2 ^ 53) with hk | hk
  · have hle : (k : ℚ) ≤ 2 ^ 53 := by exact_mod_cast hk
    rw [room_of_le hk]
    refine storable_of_units (l := -1) (by decide) ⟨k, ?_⟩ ?_
    · rw [zpow_neg_one]
      exact div_eq_mul_inv _ _
    · rw [abs_of_nonneg (by positivity)]
      norm_num
      linarith
  · rw [room_of_ge hk] at h ⊢
    have hge : (2 : ℚ) ^ 53 ≤ k := by exact_mod_cast hk
    have hwhole : (k : ℚ) - 2 ^ 52 = (k - 2 ^ 52 : Int) := by push_cast; rfl
    rw [hwhole]
    refine storable_intCast ?_
    rw [← hwhole, abs_of_nonneg (by linarith)]
    norm_num at h ⊢
    exact h

/-- **A state up to `k`**, as `k` terms up to one leave it. -/
structure UpTo (k : Nat) (s : Compensated ℚ) : Prop where
  /-- The running sum is at most the count. -/
  sum_le : s.sum ≤ k
  /-- What has been lost keeps to its room. -/
  lost_le : s.lost ≤ room k
  /-- Both together are at most the count. -/
  total_le : s.sum + s.lost ≤ k

theorem upTo_start : UpTo 0 start := by
  refine ⟨?_, le_max_of_le_left ?_, ?_⟩ <;> simp [start]

section Step

variable {k : Nat} (hwithin : Within 0 s) (hs : UpTo k s) (hv : |v| ≤ 1)
include hwithin hs hv

/-- The running sum stays at most the count. -/
theorem UpTo.next_sum_le : (s.next v).sum ≤ (k + 1 : Nat) := by
  have hle : s.sum + v ≤ (k + 1 : Nat) := by
    push_cast
    linarith [hs.sum_le, (abs_le.mp hv).2]
  -- A count that can be stored is not crossed. A larger one is not reached, since the sum comes to
  -- rest at `2 ^ 53`.
  rcases le_total (k + 1) (2 ^ 53) with hk | hk
  · refine rounded_le (storable_intCast (n := (k + 1 : Nat)) ?_) hle
    rw [Int.cast_natCast, Nat.abs_cast]
    exact_mod_cast hk
  · have hsum := (hwithin.next (by decide) (by rwa [zpow_zero])).abs_sum_le
    refine (le_abs_self _).trans (hsum.trans ?_)
    rw [zero_add]
    exact_mod_cast hk

/-- What is left of the count after the sum is enough for the losses, if it can be stored or is too
large for them. -/
theorem UpTo.next_total_le_of_storable
    (h : Storable ((k + 1 : Nat) - (s.next v).sum) ∨
      2 ^ (53 : Int) ≤ (k + 1 : Nat) - (s.next v).sum) :
    (s.next v).sum + (s.next v).lost ≤ (k + 1 : Nat) := by
  suffices hlost : (s.next v).lost ≤ (k + 1 : Nat) - (s.next v).sum by linarith
  -- Rounding the losses does not cross what is left, or they are bounded by themselves.
  rcases h with hstorable | hlarge
  · refine rounded_le hstorable ?_
    have htotal := hs.total_le
    have hterm := (abs_le.mp hv).2
    rw [Compensated.next]
    push_cast
    linarith
  · have hlost := (hwithin.next (by decide) (by rwa [zpow_zero])).abs_lost_le
    rw [zero_add] at hlost
    exact (le_abs_self _).trans (hlost.trans hlarge)

/-- A large sum is a whole number, and so is what is left of the count. -/
theorem UpTo.next_total_le_of_large (h : 2 ^ (52 : Int) ≤ (s.next v).sum) :
    (s.next v).sum + (s.next v).lost ≤ (k + 1 : Nat) := by
  apply next_total_le_of_storable hwithin hs hv
  obtain ⟨n, hn⟩ := (storable_rounded (s.sum + v)).exists_int (h.trans (le_abs_self _))
  have hwhole : (k + 1 : Nat) - (s.next v).sum = ((k + 1 : Nat) - n : Int) := by
    rw [Int.cast_sub, ← hn]
    rfl
  have hnonneg : 0 ≤ (k + 1 : Nat) - (s.next v).sum :=
    sub_nonneg.mpr (next_sum_le hwithin hs hv)
  -- A whole number up to `2 ^ 53` can be stored, and more than that is too large for the losses.
  rcases le_total ((k + 1 : Nat) - (s.next v).sum) (2 ^ (53 : Int)) with hle | hge
  · left
    rw [hwhole] at hle hnonneg ⊢
    exact storable_intCast (by rwa [abs_of_nonneg hnonneg])
  · exact .inr hge

/-- The losses keep to their room. -/
theorem UpTo.next_lost_le : (s.next v).lost ≤ room (k + 1) := by
  have hnext := hwithin.next (v := v) (by decide) (by rwa [zpow_zero])
  obtain ⟨hlow, hhigh⟩ := abs_le.mp hnext.abs_sum_le
  rw [zero_add] at hlow hhigh
  rcases le_or_gt (s.sum + v) (2 ^ (53 : Int)) with hle | hlt
  · -- The term has lost one half at most.
    have hloss : s.sum + v - rounded (s.sum + v) ≤ 1 / 2 := by
      rcases le_or_gt (-2 ^ (53 : Int)) (s.sum + v) with hge | hbelow
      · exact (le_abs_self _).trans (abs_sub_rounded_le_half (abs_le.mpr ⟨hge, hle⟩))
      · have hsum : -2 ^ (53 : Int) ≤ rounded (s.sum + v) := hlow
        linarith
    have hroom : s.lost + (s.sum + v - rounded (s.sum + v)) ≤ room (k + 1) := by
      linarith [hs.lost_le, room_add_half_le k]
    rcases le_or_gt (room (k + 1)) (2 ^ 53) with hsmall | hlarge
    · exact rounded_le (storable_room hsmall) hroom
    · have hlost := hnext.abs_lost_le
      rw [zero_add] at hlost
      refine (le_abs_self _).trans (hlost.trans (hlarge.le.trans' ?_))
      norm_num
  · -- The sum has come to rest, and the count is larger.
    have hsum : 2 ^ (53 : Int) ≤ (s.next v).sum :=
      le_rounded (storable_two_zpow (by decide)) hlt.le
    have htotal := next_total_le_of_large hwithin hs hv (hsum.trans' (by norm_num))
    have hmost : ((k + 1 : Nat) : ℚ) - 2 ^ 52 ≤ room (k + 1) := le_max_right _ _
    norm_num at hsum
    linarith

/-- The sum and the losses together stay at most the count. -/
theorem UpTo.next_total_le : (s.next v).sum + (s.next v).lost ≤ (k + 1 : Nat) := by
  -- Only a sum that is not large leaves the argument to the room of the losses.
  rcases le_or_gt (2 ^ (52 : Int)) (s.next v).sum with hlarge | hsmall
  · exact next_total_le_of_large hwithin hs hv hlarge
  have hlost := next_lost_le hwithin hs hv
  rcases le_total (k + 1) (2 ^ 53) with hk | hk
  · rw [room_of_le hk] at hlost
    -- A small sum and losses of at most half the count are no more than the count.
    rcases le_or_gt (s.next v).sum ((k + 1 : Nat) / 2) with hhalf | hhalf
    · linarith
    · -- The sum is more than half of the count, so that what is left of it is exact.
      apply next_total_le_of_storable hwithin hs hv
      left
      have hle := next_sum_le hwithin hs hv
      have hcount : (0 : ℚ) ≤ (k + 1 : Nat) := Nat.cast_nonneg _
      apply storable_sub
      · refine storable_intCast (n := (k + 1 : Nat)) ?_
        rw [Int.cast_natCast, Nat.abs_cast]
        exact_mod_cast hk
      · exact storable_rounded _
      · rw [abs_of_nonneg (by linarith), abs_of_nonneg hcount]
        linarith
      · rw [abs_of_nonneg (by linarith), abs_of_nonneg (by linarith)]
        linarith
  · rw [room_of_ge hk] at hlost
    norm_num at hsmall
    linarith

/-- **One more term** up to one. -/
theorem UpTo.next : UpTo (k + 1) (s.next v) :=
  ⟨next_sum_le hwithin hs hv, next_lost_le hwithin hs hv, next_total_le hwithin hs hv⟩

end Step

/-- The sum and the losses of terms up to one, from both sides. -/
theorem upTo_foldl {k : Nat} (hwithin : Within 0 s) (hs : UpTo k s) (hs' : UpTo k s.negated)
    (hterms : ∀ v ∈ terms, |v| ≤ 1) :
    UpTo (k + terms.length) (terms.foldl next s) ∧
      UpTo (k + terms.length) (terms.foldl next s).negated := by
  -- On the terms; the bounds from below are those from above of the opposite state.
  induction terms generalizing s k with
  | nil => exact ⟨hs, hs'⟩
  | cons v terms ih =>
    have hv := hterms v List.mem_cons_self
    rw [List.foldl_cons, List.length_cons, Nat.add_comm terms.length, ← Nat.add_assoc]
    refine ih (hwithin.next (by decide) (by rwa [zpow_zero])) (hs.next hwithin hv) ?_
      fun w hw => hterms w (List.mem_cons_of_mem v hw)
    rw [negated_next]
    exact hs'.next hwithin.negated (by rwa [abs_neg])

/-- **The sum of terms up to one** is at most their count. -/
theorem abs_total_le (hterms : ∀ v ∈ terms, |v| ≤ 1) :
    |(terms.foldl next start).sum + (terms.foldl next start).lost| ≤ terms.length := by
  have hstart : start.negated = start := by rw [negated, start, neg_zero]
  obtain ⟨habove, hbelow⟩ := upTo_foldl (within_start 0) upTo_start (hstart ▸ upTo_start) hterms
  rw [Nat.zero_add] at habove hbelow
  -- The bound from below is the one from above with the opposite signs.
  have hnegated := hbelow.total_le
  rw [negated] at hnegated
  exact abs_le.mpr ⟨by linarith, habove.total_le⟩

/-! ### Stored sums -/

/-- The values of a stored state. -/
def values (s : Compensated Double) : Compensated ℚ := ⟨s.sum.value, s.lost.value⟩

/-- Whether the sum and the losses are finite. -/
def IsFinite (s : Compensated Double) : Prop := s.sum.isFinite = true ∧ s.lost.isFinite = true

end Compensated

namespace Double

section Loss

variable {x y z : Double} (hx : x.isFinite = true) (hy : y.isFinite = true) (hz : z.isFinite = true)
  (hsum : z.value = rounded (x.value + y.value)) (hle : |y.value| ≤ |x.value|)
include hx hy hz hsum hle

/-- **The loss is exact** if it is found from the larger one of two terms. -/
theorem value_loss : ((x - z) + y).isFinite = true ∧
    ((x - z) + y).value = x.value + y.value - rounded (x.value + y.value) := by
  obtain ⟨hstorable, hbound⟩ := storable_sub_rounded x.storable_value y.storable_value hle
  rw [← hsum] at hstorable hbound
  have hdifference := rounds_sub hx hz
  -- The difference between the larger term and the sum is exact, and in range.
  have hfinite := hdifference.finite
    (inRange_of_abs_le_storable x.storable_value.abs hbound (abs_value_lt hx))
  have hloss := rounds_add hfinite hy
  have hexact : (x - z).value + y.value = x.value + y.value - rounded (x.value + y.value) := by
    rw [hdifference.value_of_storable hstorable hfinite, hsum]
    ring
  rw [hexact] at hloss
  -- Adding the smaller term gives the loss, which can be stored, so that is exact too.
  have hresult := hloss.finite (inRange_of_abs_le_storable y.storable_value.abs
    (abs_loss_le x.storable_value) (abs_value_lt hy))
  exact ⟨hresult, hloss.value_of_storable (storable_loss x.storable_value y.storable_value) hresult⟩

end Loss

end Double

namespace Compensated

section Stored

variable {s : Compensated Double} {v : Double} {terms : List Double}

/-- The losses after one more term are those before and what the term has lost. -/
theorem add_spec (hs : s.IsFinite) (hv : v.isFinite = true) (hsum : (s.sum + v).isFinite = true) :
    (s.add v).sum = s.sum + v ∧ ∃ loss : Double, (s.add v).lost = s.lost + loss ∧
      loss.isFinite = true ∧
      loss.value = s.sum.value + v.value - rounded (s.sum.value + v.value) := by
  have hvalue := (Double.rounds_add hs.1 hv).value_eq hsum
  rw [add]
  -- The machine asks which of the two is larger, and finds the loss from that one.
  split
  next hle =>
    exact ⟨rfl, _, rfl,
      Double.value_loss hs.1 hv hsum hvalue (Double.abs_value_le_of_magnitude hle)⟩
  next hlt =>
    rw [add_comm] at hvalue
    have hloss := Double.value_loss hv hs.1 hsum hvalue
      (Double.abs_value_le_of_not_magnitude hv hs.1 hlt)
    rw [add_comm v.value] at hloss
    exact ⟨rfl, _, rfl, hloss⟩

/-- **One more stored term** that leaves a finite state is one in which nothing but the sum and the
loss is rounded. -/
theorem values_add (h : (s.add v).IsFinite) :
    s.IsFinite ∧ v.isFinite = true ∧ (s.add v).values = s.values.next v.value := by
  have hsum : (s.add v).sum = s.sum + v := by
    rw [add]
    split
    · rfl
    · rfl
  -- A finite sum has finite terms; so has a finite loss.
  have hterms := Double.isFinite_of_add (hsum ▸ h.1)
  have hlost : s.lost.isFinite = true := by
    have hfinite := h.2
    rw [add] at hfinite
    split at hfinite
    · exact (Double.isFinite_of_add hfinite).1
    · exact (Double.isFinite_of_add hfinite).1
  obtain ⟨-, loss, hloss, hfinite, hvalue⟩ := add_spec ⟨hterms.1, hlost⟩ hterms.2 (hsum ▸ h.1)
  refine ⟨⟨hterms.1, hlost⟩, hterms.2, ?_⟩
  rw [values, next, hsum, hloss, (Double.rounds_add hterms.1 hterms.2).value_eq (hsum ▸ h.1),
    (Double.rounds_add hlost hfinite).value_eq (hloss ▸ h.2), hvalue]
  rfl

/-- **A sum that stays finite** is that of the values. -/
theorem values_foldl (h : (terms.foldl add s).IsFinite) :
    s.IsFinite ∧ (∀ v ∈ terms, v.isFinite = true) ∧
      (terms.foldl add s).values = (terms.map Double.value).foldl next s.values := by
  -- Finiteness at the end is brought back term by term, since no term can undo an infinity.
  induction terms generalizing s with
  | nil => exact ⟨h, nofun, rfl⟩
  | cons v terms ih =>
    obtain ⟨hfirst, hrest, hvalues⟩ := ih h
    obtain ⟨hs, hv, hnext⟩ := values_add hfirst
    refine ⟨hs, List.forall_mem_cons.mpr ⟨hv, hrest⟩, ?_⟩
    rw [List.foldl_cons, hvalues, hnext]
    rfl

/-- Two bounds together. -/
theorem two_zpow_add_54 (q : Int) : (2 : ℚ) ^ (q + 54) = 2 ^ (q + 53) + 2 ^ (q + 53) := by
  rw [show q + 54 = q + 53 + 1 by ring, zpow_add_one₀ two_ne_zero]
  ring

/-- The sum and the losses together are at most twice the bound. -/
theorem Within.abs_total_le {q : Int} {s : Compensated ℚ} (hs : Within q s) :
    |s.sum + s.lost| ≤ 2 ^ (q + 54) := by
  rw [two_zpow_add_54]
  exact (abs_add_le _ _).trans (add_le_add hs.abs_sum_le hs.abs_lost_le)

section Bounded

variable {q : Int} (hlow : -1074 ≤ q) (hhigh : q ≤ 969)
include hlow hhigh

/-- A term that is not too large leaves a finite state. -/
theorem isFinite_add (hs : s.IsFinite) (hwithin : Within q s.values) (hv : v.isFinite = true)
    (hle : |v.value| ≤ 2 ^ q) : (s.add v).IsFinite := by
  have hunit : (2 : ℚ) ^ q ≤ 2 ^ (q + 53) := zpow_le_zpow_right₀ one_le_two (by omega)
  have hsum := (Double.rounds_add hs.1 hv).finite (Double.inRange_of_abs_le (k := q + 54)
    ((abs_add_le _ _).trans (two_zpow_add_54 q ▸ add_le_add hwithin.abs_sum_le (hle.trans hunit)))
    (by omega) (by omega))
  obtain ⟨heq, loss, hloss, hfinite, hvalue⟩ := add_spec hs hv hsum
  refine ⟨heq ▸ hsum, ?_⟩
  rw [hloss]
  -- A term loses no more than itself, so the losses stay in range like the sum.
  have hlossle : |loss.value| ≤ 2 ^ (q + 53) := by
    rw [hvalue]
    exact (abs_loss_le hwithin.storable).trans (hle.trans hunit)
  exact (Double.rounds_add hs.2 hfinite).finite (Double.inRange_of_abs_le (k := q + 54)
    ((abs_add_le _ _).trans (two_zpow_add_54 q ▸ add_le_add hwithin.abs_lost_le hlossle))
    (by omega) (by omega))

/-- **Terms that are not too large** leave a finite state, however many they are. -/
theorem isFinite_foldl (hs : s.IsFinite) (hwithin : Within q s.values)
    (hterms : ∀ v ∈ terms, v.isFinite = true ∧ |v.value| ≤ 2 ^ q) :
    (terms.foldl add s).IsFinite := by
  -- On the terms: each keeps the state finite and within its bound, where the next one finds it.
  induction terms generalizing s with
  | nil => exact hs
  | cons v terms ih =>
    obtain ⟨hv, hle⟩ := hterms v List.mem_cons_self
    have hfinite := isFinite_add hlow hhigh hs hwithin hv hle
    refine ih hfinite ?_ fun w hw => hterms w (List.mem_cons_of_mem v hw)
    rw [(values_add hfinite).2.2]
    exact hwithin.next hlow hle

end Bounded

end Stored

end Compensated

open Compensated

variable {terms : List Double}

/-- The sum and the losses of values of which every step is rounded. -/
def total (values : List ℚ) : ℚ :=
  (values.foldl next start).sum + (values.foldl next start).lost

theorem values_zero : values ⟨((0 : Nat) : Double), ((0 : Nat) : Double)⟩ = start := by
  have hzero : ((0 : Nat) : Double).value = 0 := by decide +kernel
  rw [values, hzero, start]

/-- **A finite compensated sum** has finite terms, and it is the sum and the losses of their values,
rounded once more. -/
theorem value_stableSum (h : (stableSum terms).isFinite = true) :
    (∀ v ∈ terms, v.isFinite = true) ∧
      (stableSum terms).value = rounded (total (terms.map Double.value)) := by
  have hstate := Double.isFinite_of_add h
  obtain ⟨-, hterms, hvalues⟩ := values_foldl hstate
  rw [values_zero] at hvalues
  refine ⟨hterms, ?_⟩
  rw [total, ← hvalues]
  exact (Double.rounds_add hstate.1 hstate.2).value_eq h

/-- **A finite sum of terms that are not negative** is not negative. -/
theorem stableSum_nonneg (h : (stableSum terms).isFinite = true)
    (hterms : ∀ v ∈ terms, v.isFinite = true → 0 ≤ v.value) : 0 ≤ (stableSum terms).value := by
  obtain ⟨hfinite, hvalue⟩ := value_stableSum h
  -- The values are terms of the rounded sum, every step of which keeps it from falling below zero.
  have hstate : NotBelow ((terms.map Double.value).foldl next start) := by
    refine foldl_next (Q := (0 ≤ ·)) (fun hs hv => hs.next hv) notBelow_start ?_
    intro w hw
    obtain ⟨v, hv, rfl⟩ := List.mem_map.mp hw
    exact hterms v hv (hfinite v hv)
  rw [hvalue, total]
  exact le_rounded storable_zero (by linarith [hstate.neg_sum_le])

/-- **A sum of terms that are not too large** is finite. -/
theorem isFinite_stableSum {q : Int} (hlow : -1074 ≤ q) (hhigh : q ≤ 969)
    (hterms : ∀ v ∈ terms, v.isFinite = true ∧ |v.value| ≤ 2 ^ q) :
    (stableSum terms).isFinite = true ∧ |(stableSum terms).value| ≤ 2 ^ (q + 54) := by
  have hstart : IsFinite ⟨((0 : Nat) : Double), ((0 : Nat) : Double)⟩ :=
    ⟨isFinite_zero, isFinite_zero⟩
  have hstate := isFinite_foldl hlow hhigh hstart (values_zero ▸ within_start q) hterms
  have hvalues := (values_foldl hstate).2.2
  -- The state stays within the bound, however many terms there are.
  have hwithin : Within q ((terms.map Double.value).foldl next start) := by
    refine foldl_next (Q := (|·| ≤ 2 ^ q)) (fun hs hv => hs.next hlow hv) (within_start q) ?_
    intro w hw
    obtain ⟨v, hv, rfl⟩ := List.mem_map.mp hw
    exact (hterms v hv).2
  have htotal := hwithin.abs_total_le
  rw [values_zero] at hvalues
  rw [← hvalues] at htotal
  have hrounds := Double.rounds_add hstate.1 hstate.2
  have hfinite := hrounds.finite (Double.inRange_of_abs_le htotal (by omega) (by omega))
  refine ⟨hfinite, ?_⟩
  rw [stableSum, hrounds.value_eq hfinite]
  exact abs_rounded_le (storable_two_zpow (by omega)) htotal

/-- **A sum of terms up to one** is finite and at most their count as it is rounded. -/
theorem abs_stableSum_le (hterms : ∀ v ∈ terms, v.isFinite = true ∧ |v.value| ≤ 1) :
    (stableSum terms).isFinite = true ∧ |(stableSum terms).value| ≤ rounded terms.length := by
  have hfinite := (isFinite_stableSum (q := 0) (by decide) (by decide)
    (by simpa only [zpow_zero] using hterms)).1
  refine ⟨hfinite, ?_⟩
  rw [(value_stableSum hfinite).2]
  have hvalues : ∀ w ∈ terms.map Double.value, |w| ≤ 1 := by
    intro w hw
    obtain ⟨v, hv, rfl⟩ := List.mem_map.mp hw
    exact (hterms v hv).2
  -- The sum before the last rounding is at most the count, and rounding keeps the order.
  have htotal := abs_total_le hvalues
  rw [List.length_map] at htotal
  obtain ⟨hlow, hhigh⟩ := abs_le.mp htotal
  refine abs_le.mpr ⟨?_, rounded_mono hhigh⟩
  rw [← rounded_neg]
  exact rounded_mono hlow

end PinnedBench
