import Mathlib

/-!
# Rounding to the nearest

A stored number is a whole number of units, and a unit is a power of two that leaves a significand
of 53 bits. `rounded v` is the number next to `v` that can be stored, and of two that are equally
near the one with the even significand; how large it may be is not asked.

* What can be stored is not rounded, and rounding keeps the order (`rounded_of_storable`,
  `rounded_mono`).
* The smallest number that is not below a power of two with all its units does not pass it: the
  middle behind a significand of 53 bits is rounded down (`abs_rounded_le_of_saturated`).
* What a sum loses by rounding can be stored, and it is not more than either of the terms
  (`storable_loss`, `abs_loss_le`). What is taken from the larger of two terms to come to the
  rounded sum can be stored as well (`storable_sub_rounded`). So the loss of a sum is found without
  rounding.
-/

namespace PinnedBench.Rounding

/-! ### Whole numbers -/

/-- **The nearest whole number**, and of two that are equally near the even one. -/
def nearestWhole (v : ℚ) : Int :=
  if v - ⌊v⌋ < 1 / 2 then ⌊v⌋ else if 1 / 2 < v - ⌊v⌋ then ⌊v⌋ + 1 else ⌊v⌋ + ⌊v⌋ % 2

/-- A whole number nearer than one half is the nearest. -/
theorem nearestWhole_of_abs_lt {v : ℚ} {n : Int} (h : |v - n| < 1 / 2) : nearestWhole v = n := by
  obtain ⟨hlow, hhigh⟩ := abs_lt.mp h
  rw [nearestWhole]
  -- The number may be on either side, and its whole part is `n` or one less.
  rcases le_or_gt (n : ℚ) v with hle | hlt
  · have hfloor : ⌊v⌋ = n := Int.floor_eq_iff.mpr ⟨hle, by linarith⟩
    rw [hfloor, if_pos hhigh]
  · have hfloor : ⌊v⌋ = n - 1 := by
      apply Int.floor_eq_iff.mpr
      push_cast
      constructor <;> linarith
    rw [hfloor, if_neg (by push_cast; linarith), if_pos (by push_cast; linarith)]
    omega

/-- A whole number is the nearest to itself. -/
@[simp]
theorem nearestWhole_intCast (n : Int) : nearestWhole n = n := by
  apply nearestWhole_of_abs_lt
  rw [sub_self, abs_zero]
  norm_num

/-- In the middle between two whole numbers it is the even one. -/
theorem nearestWhole_middle (n : Int) : nearestWhole (n + 1 / 2) = n + n % 2 := by
  have hfloor : ⌊(n : ℚ) + 1 / 2⌋ = n := by
    apply Int.floor_eq_iff.mpr
    constructor <;> linarith
  rw [nearestWhole, hfloor, if_neg (by linarith), if_neg (by linarith)]

/-- A number is in the middle between two whole ones, or there is one that is nearer than any other.
-/
theorem middle_or_near (v : ℚ) : (∃ n : Int, v = n + 1 / 2) ∨ ∃ n : Int, |v - n| < 1 / 2 := by
  have hlow := Int.floor_le v
  have hhigh := Int.lt_floor_add_one v
  rcases lt_trichotomy (v - ⌊v⌋) (1 / 2) with h | h | h
  · exact .inr ⟨⌊v⌋, abs_lt.mpr ⟨by linarith, h⟩⟩
  · exact .inl ⟨⌊v⌋, by linarith⟩
  · refine .inr ⟨⌊v⌋ + 1, abs_lt.mpr ?_⟩
    push_cast
    constructor <;> linarith

/-- Rounding to the nearest, and to the even one in the middle, does not look at the sign. -/
theorem nearestWhole_neg (v : ℚ) : nearestWhole (-v) = -nearestWhole v := by
  rcases middle_or_near v with ⟨n, rfl⟩ | ⟨n, hn⟩
  · -- The middle on the other side stands behind another whole number.
    have hother : -((n : ℚ) + 1 / 2) = (-n - 1 : Int) + 1 / 2 := by
      push_cast
      ring
    rw [hother, nearestWhole_middle, nearestWhole_middle]
    omega
  · have hother : |-v - (-n : Int)| < 1 / 2 := by
      rwa [Int.cast_neg, neg_sub_neg, abs_sub_comm]
    rw [nearestWhole_of_abs_lt hn, nearestWhole_of_abs_lt hother]

/-- The nearest whole number is at most one half away. -/
theorem abs_sub_nearestWhole_le (v : ℚ) : |v - nearestWhole v| ≤ 1 / 2 := by
  rcases middle_or_near v with ⟨n, rfl⟩ | ⟨n, hn⟩
  · rw [nearestWhole_middle]
    rcases Int.emod_two_eq_zero_or_one n with heven | hodd
    · rw [heven, add_zero, add_sub_cancel_left]
      norm_num [abs_of_pos]
    · rw [hodd, Int.cast_add, Int.cast_one, add_sub_add_left_eq_sub]
      norm_num [abs_of_neg]
  · rw [nearestWhole_of_abs_lt hn]
    exact hn.le

/-- **No whole number is nearer.** -/
theorem abs_sub_nearestWhole_le_abs_sub (v : ℚ) (n : Int) : |v - nearestWhole v| ≤ |v - n| := by
  have hhalf := abs_sub_nearestWhole_le v
  rcases eq_or_ne (nearestWhole v) n with rfl | hne
  · exact le_rfl
  · -- Any other whole number is at least one away from the nearest, which is at most one half away.
    have hapart : (1 : ℚ) ≤ |(nearestWhole v : ℚ) - n| := by
      exact_mod_cast Int.one_le_abs (sub_ne_zero.mpr hne)
    have htriangle := abs_sub_le (nearestWhole v : ℚ) v n
    rw [abs_sub_comm (nearestWhole v : ℚ) v] at htriangle
    linarith

/-! ### Units -/

/-- Whether a number is a whole number of units of `2 ^ l`. -/
def InUnits (l : Int) (v : ℚ) : Prop := ∃ n : Int, v = n * 2 ^ l

theorem InUnits.add {l : Int} {v w : ℚ} (hv : InUnits l v) (hw : InUnits l w) :
    InUnits l (v + w) := by
  obtain ⟨n, rfl⟩ := hv
  obtain ⟨m, rfl⟩ := hw
  exact ⟨n + m, by push_cast; ring⟩

theorem InUnits.neg {l : Int} {v : ℚ} (hv : InUnits l v) : InUnits l (-v) := by
  obtain ⟨n, rfl⟩ := hv
  exact ⟨-n, by push_cast; ring⟩

theorem InUnits.sub {l : Int} {v w : ℚ} (hv : InUnits l v) (hw : InUnits l w) :
    InUnits l (v - w) := by
  rw [sub_eq_add_neg]
  exact hv.add hw.neg

/-- A unit is a whole number of smaller ones. -/
theorem InUnits.of_le {l l' : Int} {v : ℚ} (hv : InUnits l v) (h : l' ≤ l) : InUnits l' v := by
  obtain ⟨n, rfl⟩ := hv
  refine ⟨n * 2 ^ (l - l').toNat, ?_⟩
  have hexponent : l = (l - l').toNat + l' := by omega
  nth_rewrite 1 [hexponent]
  rw [zpow_add₀ two_ne_zero, zpow_natCast]
  push_cast
  ring

theorem inUnits_zero (n : Int) : InUnits 0 n := ⟨n, by rw [zpow_zero, mul_one]⟩

/-- The power of two that is one too large for a significand. -/
theorem two_zpow_add_53 (l : Int) : (2 : ℚ) ^ (l + 53) = 2 ^ 53 * 2 ^ l := by
  rw [zpow_add₀ two_ne_zero, zpow_ofNat, mul_comm]

/-- The power of two of the leading bit of a significand. -/
theorem two_zpow_add_52 (l : Int) : (2 : ℚ) ^ (l + 52) = 2 ^ 52 * 2 ^ l := by
  rw [zpow_add₀ two_ne_zero, zpow_ofNat, mul_comm]

/-! ### Numbers that can be stored -/

/-- Whether a number is a significand that fits, scaled by a power of two that is not too small. How
large it may be is not asked. -/
def Storable (c : ℚ) : Prop :=
  ∃ (C : Nat) (L : Int), C < 2 ^ 53 ∧ -1074 ≤ L ∧ |c| = C * 2 ^ L

/-- The opposite of what can be stored can be stored. -/
theorem Storable.neg {c : ℚ} (hc : Storable c) : Storable (-c) := by
  rwa [Storable, abs_neg]

/-- The sign is stored on its own. -/
theorem Storable.abs {c : ℚ} (hc : Storable c) : Storable |c| := by
  rwa [Storable, abs_abs]

theorem storable_natCast {n : Nat} (h : n < 2 ^ 53) : Storable n := by
  refine ⟨n, 0, h, by decide, ?_⟩
  rw [zpow_zero, mul_one]
  exact Nat.abs_cast n

theorem storable_zero : Storable 0 := by exact_mod_cast storable_natCast (n := 0) (by decide)

theorem storable_one : Storable 1 := by exact_mod_cast storable_natCast (n := 1) (by decide)

/-- Powers of two can be stored, if they are not too small. -/
theorem storable_two_zpow {n : Int} (h : -1074 ≤ n) : Storable (2 ^ n) := by
  refine ⟨1, n, by decide, h, ?_⟩
  rw [Nat.cast_one, one_mul]
  exact abs_of_pos (zpow_pos two_pos n)

/-- The units of a number that can be stored, of which there are not too many. -/
theorem Storable.exists_units {c : ℚ} (hc : Storable c) :
    ∃ l : Int, -1074 ≤ l ∧ InUnits l c ∧ |c| < 2 ^ (l + 53) := by
  obtain ⟨C, l, hC, hl, habs⟩ := hc
  refine ⟨l, hl, ?_, ?_⟩
  · rcases abs_choice c with h | h
    · exact ⟨C, by rw [← h, habs]; rfl⟩
    · exact ⟨-C, by rw [← neg_neg c, ← h, habs]; push_cast; ring⟩
  · have hC : (C : ℚ) < 2 ^ 53 := by exact_mod_cast hC
    calc |c| = C * 2 ^ l := habs
      _ < 2 ^ 53 * 2 ^ l := mul_lt_mul_of_pos_right hC (zpow_pos two_pos l)
      _ = 2 ^ (l + 53) := (two_zpow_add_53 l).symm

/-- The smallest number that can be stored and is not zero. -/
theorem Storable.le_of_pos {c : ℚ} (hc : Storable c) (h : 0 < c) : 2 ^ (-1074 : Int) ≤ c := by
  obtain ⟨C, l, -, hl, habs⟩ := hc
  rw [abs_of_pos h] at habs
  have hC : 1 ≤ C := Nat.one_le_iff_ne_zero.mpr fun hzero => by
    rw [habs, hzero, Nat.cast_zero, zero_mul] at h
    exact lt_irrefl 0 h
  have hC : (1 : ℚ) ≤ C := by exact_mod_cast hC
  rw [habs]
  calc (2 : ℚ) ^ (-1074 : Int) ≤ 2 ^ l := zpow_le_zpow_right₀ one_le_two hl
    _ ≤ C * 2 ^ l := le_mul_of_one_le_left (zpow_pos two_pos l).le hC

/-- **Not too many units** can be stored. -/
theorem storable_of_units {l : Int} {c : ℚ} (hl : -1074 ≤ l) (hc : InUnits l c)
    (h : |c| ≤ 2 ^ (l + 53)) : Storable c := by
  rcases h.lt_or_eq with hlt | heq
  · obtain ⟨n, rfl⟩ := hc
    have hunit : (0 : ℚ) < 2 ^ l := zpow_pos two_pos l
    have habs : |(n : ℚ) * 2 ^ l| = n.natAbs * 2 ^ l := by
      rw [abs_mul, abs_of_pos hunit, Nat.cast_natAbs, Int.cast_abs]
    refine ⟨n.natAbs, l, ?_, hl, habs⟩
    rw [habs, two_zpow_add_53] at hlt
    exact_mod_cast lt_of_mul_lt_mul_right hlt hunit.le
  · -- One unit more than fit the significand is a power of two.
    have hpower := storable_two_zpow (n := l + 53) (by omega)
    rcases abs_choice c with h | h
    · rwa [← h, heq]
    · rw [← neg_neg c, ← h, heq]
      exact hpower.neg

/-- Whole numbers up to `2 ^ 53` on either side can be stored. -/
theorem storable_intCast {n : Int} (h : |(n : ℚ)| ≤ 2 ^ (53 : Int)) : Storable n :=
  storable_of_units (by decide) (inUnits_zero n) h

/-- A number from which one of the units is taken off either is half of a number that can be stored,
or is very small. -/
theorem Storable.half {c : ℚ} (hc : Storable c) :
    Storable (c / 2) ∨ |c| < 2 ^ (-1074 + 53 : Int) := by
  obtain ⟨l, hl, ⟨n, hn⟩, hlt⟩ := hc.exists_units
  rcases hl.lt_or_eq with hmore | rfl
  · left
    have htwo : (2 : ℚ) ^ l = 2 ^ (l - 1) * 2 := by rw [← zpow_add_one₀ two_ne_zero, sub_add_cancel]
    refine storable_of_units (l := l - 1) (by omega) ⟨n, ?_⟩ ?_
    · rw [hn, htwo]
      ring
    · rw [abs_div, abs_two, div_le_iff₀ two_pos, ← zpow_add_one₀ two_ne_zero]
      rw [show l - 1 + 53 + 1 = l + 53 by ring]
      exact hlt.le
  · exact .inr hlt

/-- Twice what can be stored can be stored, as only the exponent changes. -/
theorem Storable.double {c : ℚ} (hc : Storable c) : Storable (2 * c) := by
  obtain ⟨l, hl, ⟨n, hn⟩, hlt⟩ := hc.exists_units
  have htwo : (2 : ℚ) ^ (l + 1) = 2 ^ l * 2 := zpow_add_one₀ two_ne_zero l
  refine storable_of_units (l := l + 1) (by omega) ⟨n, ?_⟩ ?_
  · rw [hn, htwo]
    ring
  · rw [abs_mul, abs_two, show l + 1 + 53 = l + 53 + 1 by ring, zpow_add_one₀ two_ne_zero]
    linarith

/-- What is in the units of two numbers and not larger than either of them can be stored. -/
theorem storable_of_le_both {x y d : ℚ} (hx : Storable x) (hy : Storable y)
    (hd : ∀ l, -1074 ≤ l → InUnits l x → InUnits l y → InUnits l d) (hle : |d| ≤ |x|)
    (hle' : |d| ≤ |y|) : Storable d := by
  obtain ⟨l, hl, hunits, hlt⟩ := hx.exists_units
  obtain ⟨l', hl', hunits', hlt'⟩ := hy.exists_units
  -- The finer of the two units serves both numbers, and of the number that has it there are not too
  -- many.
  rcases le_total l l' with h | h
  · exact storable_of_units hl (hd l hl hunits (hunits'.of_le h)) (hle.trans hlt.le)
  · exact storable_of_units hl' (hd l' hl' (hunits.of_le h) hunits') (hle'.trans hlt'.le)

/-- **A difference** that is not larger than either of its terms can be stored. -/
theorem storable_sub {x y : ℚ} (hx : Storable x) (hy : Storable y) (hle : |x - y| ≤ |x|)
    (hle' : |x - y| ≤ |y|) : Storable (x - y) :=
  storable_of_le_both hx hy (fun _ _ h h' => h.sub h') hle hle'

/-! ### Rounding -/

/-- The exponent of the unit in the last place of what a number is rounded to. -/
def lastPlace (v : ℚ) : Int := max (Int.log 2 |v| - 52) (-1074)

/-- **The nearest number that can be stored**, and of two that are equally near the even one. -/
def rounded (v : ℚ) : ℚ := nearestWhole (v / 2 ^ lastPlace v) * 2 ^ lastPlace v

theorem le_lastPlace (v : ℚ) : -1074 ≤ lastPlace v := le_max_right _ _

/-- A number has at most 53 bits before the end of its last place. -/
theorem abs_lt_lastPlace (v : ℚ) : |v| < 2 ^ (lastPlace v + 53) := by
  have hlog : |v| < 2 ^ (Int.log 2 |v| + 1) := Int.lt_zpow_succ_log_self one_lt_two _
  refine hlog.trans_le (zpow_le_zpow_right₀ one_le_two ?_)
  rw [lastPlace]
  omega

/-- The leading bit, unless the units are the smallest ones. -/
theorem lastPlace_le_abs {v : ℚ} (hne : v ≠ 0) (h : -1074 < lastPlace v) :
    2 ^ (lastPlace v + 52) ≤ |v| := by
  have hlog : lastPlace v + 52 = Int.log 2 |v| := by
    rw [lastPlace] at h ⊢
    omega
  rw [hlog]
  exact Int.zpow_log_le_self one_lt_two (abs_pos.mpr hne)

/-- The last place is where the leading bit has 52 bits behind it. -/
theorem lastPlace_eq {v : ℚ} {t : Int} (hne : v ≠ 0) (ht : -1074 ≤ t) (hlt : |v| < 2 ^ (t + 53))
    (hge : -1074 < t → 2 ^ (t + 52) ≤ |v|) : lastPlace v = t := by
  have hpos := abs_pos.mpr hne
  have hupper : Int.log 2 |v| < t + 53 := (Int.lt_zpow_iff_log_lt one_lt_two hpos).mp hlt
  rw [lastPlace]
  -- With its leading bit the number tells the exponent; without it the smallest one is taken.
  rcases ht.lt_or_eq with hmore | rfl
  · have hlower : t + 52 ≤ Int.log 2 |v| := (Int.zpow_le_iff_le_log one_lt_two hpos).mp (hge hmore)
    omega
  · omega

@[simp]
theorem rounded_zero : rounded 0 = 0 := by
  have hnone : nearestWhole 0 = 0 := by exact_mod_cast nearestWhole_intCast 0
  rw [rounded, zero_div, hnone, Int.cast_zero, zero_mul]

/-- **Rounding in units**, which may be found in any way. -/
theorem rounded_eq {v : ℚ} {t : Int} (ht : -1074 ≤ t) (hlt : |v| < 2 ^ (t + 53))
    (hge : -1074 < t → 2 ^ (t + 52) ≤ |v|) : rounded v = nearestWhole (v / 2 ^ t) * 2 ^ t := by
  rcases eq_or_ne v 0 with rfl | hne
  · have hnone : nearestWhole 0 = 0 := by exact_mod_cast nearestWhole_intCast 0
    rw [rounded_zero, zero_div, hnone, Int.cast_zero, zero_mul]
  · rw [rounded, lastPlace_eq hne ht hlt hge]

theorem rounded_neg (v : ℚ) : rounded (-v) = -rounded v := by
  have hplace : lastPlace (-v) = lastPlace v := by rw [lastPlace, abs_neg, lastPlace]
  rw [rounded, hplace, neg_div, nearestWhole_neg, Int.cast_neg, neg_mul, rounded]

/-- No number of units is nearer. -/
theorem abs_sub_rounded_le_of_units {v c : ℚ} (hc : InUnits (lastPlace v) c) :
    |v - rounded v| ≤ |v - c| := by
  obtain ⟨n, rfl⟩ := hc
  have hunit : (0 : ℚ) < 2 ^ lastPlace v := zpow_pos two_pos _
  have hscale (m : Int) : |v - m * 2 ^ lastPlace v| =
      |v / 2 ^ lastPlace v - m| * 2 ^ lastPlace v := by
    rw [← abs_of_pos hunit, ← abs_mul, abs_of_pos hunit, sub_mul, div_mul_cancel₀ _ hunit.ne']
  rw [rounded, hscale, hscale]
  exact mul_le_mul_of_nonneg_right (abs_sub_nearestWhole_le_abs_sub _ n) hunit.le

/-- **No number that can be stored is nearer.** Either its units are at least those of the last
place, or it lies below the leading bit. -/
theorem abs_sub_rounded_le {v c : ℚ} (hc : Storable c) : |v - rounded v| ≤ |v - c| := by
  rcases eq_or_ne v 0 with rfl | hne
  · rw [rounded_zero, sub_zero, abs_zero]
    exact abs_nonneg _
  obtain ⟨l, hl, hunits, hlt⟩ := hc.exists_units
  rcases le_or_gt (lastPlace v) l with h | h
  · exact abs_sub_rounded_le_of_units (hunits.of_le h)
  · have hleading := lastPlace_le_abs hne (by omega)
    have hbelow : |c| ≤ 2 ^ (lastPlace v + 52) :=
      hlt.le.trans (zpow_le_zpow_right₀ one_le_two (by omega))
    -- The leading bit is nearer than the number, and it is in units.
    have hbit : InUnits (lastPlace v) (2 ^ (lastPlace v + 52)) :=
      ⟨2 ^ 52, by rw [two_zpow_add_52]; push_cast; rfl⟩
    have htriangle : |v| - |c| ≤ |v - c| := abs_sub_abs_le_abs_sub v c
    rcases abs_choice v with hsign | hsign
    · have hnear := abs_sub_rounded_le_of_units hbit
      rw [abs_of_nonneg (by linarith : 0 ≤ v - 2 ^ (lastPlace v + 52))] at hnear
      linarith
    · have hnear := abs_sub_rounded_le_of_units hbit.neg
      rw [sub_neg_eq_add, abs_of_nonpos (by linarith : v + 2 ^ (lastPlace v + 52) ≤ 0)] at hnear
      linarith

/-- What a number is rounded to can be stored. -/
theorem storable_rounded (v : ℚ) : Storable (rounded v) := by
  refine storable_of_units (le_lastPlace v) ⟨_, rfl⟩ ?_
  have hbit : InUnits (lastPlace v) (2 ^ (lastPlace v + 53)) :=
    ⟨2 ^ 53, by rw [two_zpow_add_53]; push_cast; rfl⟩
  have habs := abs_lt_lastPlace v
  -- The bit before the leading one is in units too, so that rounding does not cross it.
  have habove := abs_sub_rounded_le_of_units hbit
  have hbelow := abs_sub_rounded_le_of_units hbit.neg
  obtain ⟨hlow, hhigh⟩ := abs_lt.mp habs
  rw [abs_of_neg (by linarith : v - 2 ^ (lastPlace v + 53) < 0)] at habove
  rw [sub_neg_eq_add, abs_of_pos (by linarith : 0 < v + 2 ^ (lastPlace v + 53))] at hbelow
  have hup := neg_abs_le (v - rounded v)
  have hdown := le_abs_self (v - rounded v)
  exact abs_le.mpr ⟨by linarith, by linarith⟩

theorem rounded_of_storable {v : ℚ} (hv : Storable v) : rounded v = v := by
  have hnear := abs_sub_rounded_le (v := v) hv
  rw [sub_self, abs_zero] at hnear
  exact (sub_eq_zero.mp (abs_nonpos_iff.mp hnear)).symm

/-- **Rounding keeps the order.** -/
theorem rounded_mono {v w : ℚ} (h : v ≤ w) : rounded v ≤ rounded w := by
  by_contra hlt
  have hlt := not_le.mp hlt
  -- The smaller of the results is as near to the first number, and the larger to the second.
  have hfirst := abs_sub_rounded_le (v := v) (storable_rounded w)
  have hsecond := abs_sub_rounded_le (v := w) (storable_rounded v)
  -- Both can be nearest only if the two numbers are the same; which sides they are on does not
  -- matter.
  have hsame : v = w := by
    refine le_antisymm h ?_
    rcases abs_cases (v - rounded v) with ⟨h₁, _⟩ | ⟨h₁, _⟩ <;>
      rcases abs_cases (v - rounded w) with ⟨h₂, _⟩ | ⟨h₂, _⟩ <;>
      rcases abs_cases (w - rounded v) with ⟨h₃, _⟩ | ⟨h₃, _⟩ <;>
      rcases abs_cases (w - rounded w) with ⟨h₄, _⟩ | ⟨h₄, _⟩ <;>
      linarith
  exact hlt.ne (congrArg rounded hsame.symm)

/-- Rounding does not cross a number that can be stored. -/
theorem rounded_le {v c : ℚ} (hc : Storable c) (h : v ≤ c) : rounded v ≤ c :=
  (rounded_mono h).trans (rounded_of_storable hc).le

/-- Rounding does not cross a number that can be stored from above. -/
theorem le_rounded {v c : ℚ} (hc : Storable c) (h : c ≤ v) : c ≤ rounded v :=
  (rounded_of_storable hc).ge.trans (rounded_mono h)

/-- Nor does it cross one in size. -/
theorem abs_rounded_le {v c : ℚ} (hc : Storable c) (h : |v| ≤ c) : |rounded v| ≤ c := by
  obtain ⟨hlow, hhigh⟩ := abs_le.mp h
  exact abs_le.mpr ⟨le_rounded hc.neg hlow, rounded_le hc hhigh⟩

/-- **Saturation.** A power of two and all that it has units is rounded to itself if one of the
units is added: it stands in the middle then, and the significand of the power is even. -/
theorem rounded_le_of_saturated {v : ℚ} {q : Int} (hq : -1074 ≤ q)
    (h : v ≤ 2 ^ (q + 53) + 2 ^ q) : rounded v ≤ 2 ^ (q + 53) := by
  refine (rounded_mono h).trans ?_
  have hunit : (0 : ℚ) < 2 ^ (q + 1) := zpow_pos two_pos _
  have hhalf : (2 : ℚ) ^ q = 1 / 2 * 2 ^ (q + 1) := by
    rw [zpow_add_one₀ two_ne_zero]
    ring
  have hpower : (2 : ℚ) ^ (q + 53) = 2 ^ 52 * 2 ^ (q + 1) := by
    rw [← two_zpow_add_52]
    congr 1
    ring
  -- In units of the last place of the sum it is the middle between `2 ^ 52` and the next number.
  have hsum : (2 : ℚ) ^ (q + 53) + 2 ^ q = ((2 ^ 52 : Int) + 1 / 2) * 2 ^ (q + 1) := by
    rw [hhalf, hpower]
    push_cast
    ring
  have hround : rounded (2 ^ (q + 53) + 2 ^ q) =
      nearestWhole ((2 ^ (q + 53) + 2 ^ q) / 2 ^ (q + 1)) * 2 ^ (q + 1) := by
    have hpos : (0 : ℚ) < 2 ^ (q + 53) + 2 ^ q := by positivity
    apply rounded_eq (by omega)
    · rw [abs_of_pos hpos, hsum, two_zpow_add_53]
      exact mul_lt_mul_of_pos_right (by norm_num) hunit
    · intro _
      rw [abs_of_pos hpos, hsum, two_zpow_add_52]
      exact mul_le_mul_of_nonneg_right (by norm_num) hunit.le
  rw [hround, hsum, mul_div_cancel_right₀ _ hunit.ne', nearestWhole_middle, hpower]
  exact mul_le_mul_of_nonneg_right (by norm_num) hunit.le

/-- Saturation, whatever the sign. -/
theorem abs_rounded_le_of_saturated {v : ℚ} {q : Int} (hq : -1074 ≤ q)
    (h : |v| ≤ 2 ^ (q + 53) + 2 ^ q) : |rounded v| ≤ 2 ^ (q + 53) := by
  obtain ⟨hlow, hhigh⟩ := abs_le.mp h
  refine abs_le.mpr ⟨?_, rounded_le_of_saturated hq hhigh⟩
  have hother := rounded_le_of_saturated hq (neg_le.mp hlow)
  rw [rounded_neg] at hother
  exact neg_le.mp hother

/-- A number that is not too large is rounded by half at most. -/
theorem abs_sub_rounded_le_half {v : ℚ} (h : |v| ≤ 2 ^ (53 : Int)) : |v - rounded v| ≤ 1 / 2 := by
  have hhalf := abs_sub_nearestWhole_le v
  refine (abs_sub_rounded_le (storable_intCast ?_)).trans hhalf
  -- The nearest whole number does not pass the bound either, which is whole itself.
  obtain ⟨hlow, hhigh⟩ := abs_le.mp h
  obtain ⟨hlow', hhigh'⟩ := abs_le.mp hhalf
  have hupper : (nearestWhole v : ℚ) < (2 ^ 53 + 1 : Int) := by
    push_cast
    norm_num at hhigh ⊢
    linarith
  have hlower : ((-2 ^ 53 - 1 : Int) : ℚ) < nearestWhole v := by
    push_cast
    norm_num at hlow ⊢
    linarith
  have hupper : nearestWhole v < 2 ^ 53 + 1 := by exact_mod_cast hupper
  have hlower : -2 ^ 53 - 1 < nearestWhole v := by exact_mod_cast hlower
  refine abs_le.mpr ⟨?_, ?_⟩
  · have hle : -2 ^ 53 ≤ nearestWhole v := by omega
    exact_mod_cast hle
  · have hle : nearestWhole v ≤ 2 ^ 53 := by omega
    exact_mod_cast hle

/-- What can be stored and has no room for a fraction is a whole number. -/
theorem Storable.exists_int {c : ℚ} (hc : Storable c) (h : 2 ^ (52 : Int) ≤ |c|) :
    ∃ n : Int, c = n := by
  obtain ⟨l, -, hunits, hlt⟩ := hc.exists_units
  have hexponent : (52 : Int) < l + 53 := (zpow_lt_zpow_iff_right₀ one_lt_two).mp (h.trans_lt hlt)
  obtain ⟨n, hn⟩ := hunits.of_le (by omega : 0 ≤ l)
  exact ⟨n, by rw [hn, zpow_zero, mul_one]⟩

/-! ### The loss of a sum -/

/-- Rounding keeps units. -/
theorem InUnits.rounded {l : Int} {v : ℚ} (hl : -1074 ≤ l) (hv : InUnits l v) :
    InUnits l (rounded v) := by
  -- Either the last place is above the units, or there are so few of them that nothing is rounded.
  rcases le_or_gt l (lastPlace v) with h | h
  · exact InUnits.of_le ⟨_, rfl⟩ h
  · have habs : |v| ≤ 2 ^ (l + 53) :=
      (abs_lt_lastPlace v).le.trans (zpow_le_zpow_right₀ one_le_two (by omega))
    rwa [rounded_of_storable (storable_of_units hl hv habs)]

section Loss

variable {x y : ℚ} (hx : Storable x) (hy : Storable y)
include hx

/-- **The loss** of a sum is not more than the other term. -/
theorem abs_loss_le : |x + y - rounded (x + y)| ≤ |y| := by
  have hnear := abs_sub_rounded_le (v := x + y) hx
  rwa [add_sub_cancel_left] at hnear

include hy

/-- **The loss** of a sum can be stored. -/
theorem storable_loss : Storable (x + y - rounded (x + y)) := by
  refine storable_of_le_both hx hy (fun l hl h h' => ?_) ?_ (abs_loss_le hx)
  · exact (h.add h').sub ((h.add h').rounded hl)
  · have hother := abs_loss_le (y := x) hy
    rwa [add_comm] at hother

/-- A sum that is too small for its loss is exact. -/
theorem storable_add_of_small (hle : |x + y| < 2 ^ (-1074 + 53 : Int)) : Storable (x + y) := by
  obtain ⟨l, hl, hunits, -⟩ := hx.exists_units
  obtain ⟨l', hl', hunits', -⟩ := hy.exists_units
  exact storable_of_units le_rfl ((hunits.of_le hl).add (hunits'.of_le hl')) hle.le

/-- What leads from a number that is not negative to the rounded sum with a smaller one can be
stored, and it is not larger than the number: the sum is at least half of it and at most twice, or
it is exact. -/
theorem storable_sub_rounded_of_nonneg (hnonneg : 0 ≤ x) (hle : |y| ≤ x) :
    Storable (x - rounded (x + y)) ∧ |x - rounded (x + y)| ≤ x := by
  obtain ⟨hlow, hhigh⟩ := abs_le.mp hle
  -- If the sum is exact, what leads to it is the other term.
  by_cases hexact : Storable (x + y)
  · rw [rounded_of_storable hexact, sub_add_cancel_left, abs_neg]
    exact ⟨hy.neg, hle⟩
  have hupper : rounded (x + y) ≤ 2 * x := rounded_le hx.double (by linarith)
  have hlower : x / 2 ≤ rounded (x + y) := by
    rcases le_or_gt 0 y with hpos | hneg
    · have hge : x ≤ rounded (x + y) := le_rounded hx (by linarith)
      linarith
    · rcases hx.half with hhalf | hsmall
      · -- A term of more than half of the number would leave an exact difference.
        refine le_rounded hhalf ?_
        by_contra hlt
        refine hexact ?_
        rw [← sub_neg_eq_add]
        -- The rounded sum is between half of the number and twice, so what leads to it is smaller
        -- than either.
        have hbound : |x - -y| = x + y := by
          rw [sub_neg_eq_add]
          exact abs_of_nonneg (by linarith)
        apply storable_sub hx hy.neg
        · rw [hbound, abs_of_nonneg hnonneg]
          linarith
        · rw [hbound, abs_neg, abs_of_neg hneg]
          linarith
      · -- Where half of the number has no room for its last bit, sums are exact.
        refine absurd (storable_add_of_small hx hy ?_) hexact
        rw [abs_of_nonneg (by linarith : 0 ≤ x + y)]
        rw [abs_of_nonneg hnonneg] at hsmall
        linarith
  have hbound : |x - rounded (x + y)| ≤ x := abs_le.mpr ⟨by linarith, by linarith⟩
  refine ⟨storable_sub hx (storable_rounded _) ?_ ?_, hbound⟩
  · rwa [abs_of_nonneg hnonneg]
  · rw [abs_of_nonneg (by linarith : 0 ≤ rounded (x + y))]
    exact abs_le.mpr ⟨by linarith, by linarith⟩

/-- **What leads from the larger term to the rounded sum** can be stored. -/
theorem storable_sub_rounded (hle : |y| ≤ |x|) :
    Storable (x - rounded (x + y)) ∧ |x - rounded (x + y)| ≤ |x| := by
  rcases le_total 0 x with hnonneg | hneg
  · rw [abs_of_nonneg hnonneg] at hle ⊢
    exact storable_sub_rounded_of_nonneg hx hy hnonneg hle
  · -- With the other signs everything has the other sign.
    have hopposite : -x - rounded (-x + -y) = -(x - rounded (x + y)) := by
      rw [← neg_add, rounded_neg]
      ring
    have hother := storable_sub_rounded_of_nonneg hx.neg hy.neg (neg_nonneg.mpr hneg)
      (by rwa [abs_neg, ← abs_of_nonpos hneg])
    rw [hopposite, abs_neg, ← abs_of_nonpos hneg] at hother
    exact ⟨neg_neg (x - rounded (x + y)) ▸ hother.1.neg, hother.2⟩

end Loss

end PinnedBench.Rounding
