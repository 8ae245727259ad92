import PinnedBench.Proofs.Decimal.Nearest

/-!
# Shortest decimals lie in their intervals

The shortest decimal of a number lies in the interval of the values that are read as this number
(`Double.covers_shortest`). Up to sixteen digits that is what the search tests; seventeen digits are
taken without a test, because half a unit of the seventeenth digit is less than a quarter of the
step between neighbouring numbers.
-/

namespace PinnedBench.Double

variable {x : Double}

/-! ### Weights -/

/-- The weights stand to each other as the power of ten to the power of two. -/
theorem weights_value (k p : Int) :
    ((weights k p).1 : ℚ) = 10 ^ k / 2 ^ p * (weights k p).2 := by
  have hten : (10 : ℚ) ^ k * 10 ^ (-k).toNat = 10 ^ k.toNat := by
    rw [← zpow_natCast, ← zpow_natCast, ← zpow_add₀ (by norm_num)]
    congr 1
    omega
  have htwo : (2 : ℚ) ^ p * 2 ^ (-p).toNat = 2 ^ p.toNat := by
    rw [← zpow_natCast, ← zpow_natCast, ← zpow_add₀ (by norm_num)]
    congr 1
    omega
  have hp : (2 : ℚ) ^ p ≠ 0 := (zpow_pos two_pos p).ne'
  change ((10 ^ k.toNat * 2 ^ (-p).toNat : Nat) : ℚ) =
    10 ^ k / 2 ^ p * (10 ^ (-k).toNat * 2 ^ p.toNat : Nat)
  push_cast
  rw [← hten, ← htwo]
  field_simp

section Comparison

variable {k p : Int} {c v : Nat}

/-- A point of a grid is compared with a value by the weights. -/
theorem mul_weights_le : v * (weights k p).2 ≤ c * (weights k p).1 ↔
    (v : ℚ) ≤ c * 10 ^ k / 2 ^ p := by
  have hpos : (0 : ℚ) < (weights k p).2 := by exact_mod_cast (weights_pos k p).2
  rw [← Nat.cast_le (α := ℚ), Nat.cast_mul, Nat.cast_mul, weights_value, ← mul_assoc,
    mul_le_mul_iff_left₀ hpos, mul_div_assoc]

/-- Strictly, for numbers whose ends do not belong to them. -/
theorem mul_weights_lt : v * (weights k p).2 < c * (weights k p).1 ↔
    (v : ℚ) < c * 10 ^ k / 2 ^ p := by
  have hpos : (0 : ℚ) < (weights k p).2 := by exact_mod_cast (weights_pos k p).2
  rw [← Nat.cast_lt (α := ℚ), Nat.cast_mul, Nat.cast_mul, weights_value, ← mul_assoc,
    mul_lt_mul_iff_left₀ hpos, mul_div_assoc]

/-- The same with the point below the value. -/
theorem le_mul_weights : c * (weights k p).1 ≤ v * (weights k p).2 ↔
    (c * 10 ^ k / 2 ^ p : ℚ) ≤ v := by
  rw [← not_lt, mul_weights_lt, not_lt]

/-- The same, strictly. -/
theorem lt_mul_weights : c * (weights k p).1 < v * (weights k p).2 ↔
    (c * 10 ^ k / 2 ^ p : ℚ) < v := by
  rw [← not_le, mul_weights_le, not_le]

end Comparison

/-! ### Points that are read as the number -/

/-- The numbers are closer together below a power of two that is not the smallest. -/
theorem significand_eq_iff : x.significand = 2 ^ 52 ∧ -1074 < x.scale ↔
    x.fractionField = 0 ∧ 1 < x.exponentField := by
  have hfraction : x.fractionField < 2 ^ 52 := Nat.mod_lt _ (by decide)
  have hleading : powerOfTwo 52 = 2 ^ 52 := rfl
  rw [significand, scale]
  split <;> omega

/-- **A point that is read as the number** lies in its interval. -/
theorem covers_of_readsAs (hzero : x.isZero = false) {k : Int} {c : Nat}
    (h : x.readsAs k c = true) : x.Covers (c * 10 ^ k) := by
  have hM := (canonical hzero).pos
  -- The search counts in quarters of a unit, so that both ends are whole numbers.
  have hquarters : (c * 10 ^ k / 2 ^ (x.scale - 2) : ℚ) = 4 * (c * 10 ^ k / 2 ^ x.scale) := by
    rw [zpow_sub₀ two_ne_zero]
    norm_num
    ring
  have hlower : (x.lowerQuarters : ℚ) =
      4 * (x.significand - if x.significand = 2 ^ 52 ∧ -1074 < x.scale then 1 / 4 else 1 / 2) := by
    rw [lowerQuarters]
    simp only [significand_eq_iff]
    split
    · rw [Nat.cast_sub (by omega)]
      push_cast
      ring
    · rw [Nat.cast_sub (by omega)]
      push_cast
      ring
  have hupper : (x.upperQuarters : ℚ) = 4 * (x.significand + 1 / 2) := by
    rw [upperQuarters]
    push_cast
    ring
  rw [readsAs] at h
  simp only at h
  split at h
  next heven =>
    obtain ⟨hlow, hhigh⟩ := Bool.and_eq_true_iff.mp h
    have hlow := mul_weights_le.mp (of_decide_eq_true hlow)
    have hhigh := le_mul_weights.mp (of_decide_eq_true hhigh)
    rw [hquarters, hlower] at hlow
    rw [hquarters, hupper] at hhigh
    exact ⟨by linarith, by linarith, fun hodd => by omega⟩
  -- An odd number has no power of two as its significand, so its interval is half a unit to either
  -- side.
  next hodd =>
    obtain ⟨hlow, hhigh⟩ := Bool.and_eq_true_iff.mp h
    have hlow := mul_weights_lt.mp (of_decide_eq_true hlow)
    have hhigh := lt_mul_weights.mp (of_decide_eq_true hhigh)
    rw [hquarters, hlower] at hlow
    rw [hquarters, hupper] at hhigh
    refine ⟨by linarith, by linarith, fun _ => ⟨?_, by linarith⟩⟩
    have hne : ¬(x.significand = 2 ^ 52 ∧ -1074 < x.scale) := fun h => by omega
    rw [if_neg hne] at hlow
    linarith

/-! ### Seventeen digits -/

/-- The nearer point of a grid is at most half a unit of the grid away. -/
theorem nearer_bounds (tie : TieRule) (x : Double) (k : Int) :
    2 * (x.nearer tie k * (weights k x.scale).1) ≤
        2 * (x.significand * (weights k x.scale).2) + (weights k x.scale).1 ∧
      2 * (x.significand * (weights k x.scale).2) ≤
        2 * (x.nearer tie k * (weights k x.scale).1) + (weights k x.scale).1 := by
  have hpos := (weights_pos k x.scale).1
  unfold nearer below
  simp only
  generalize (weights k x.scale).1 = a at *
  generalize x.significand * (weights k x.scale).2 = v
  -- The value lies between the point below it and the next one.
  have hlow : v / a * a ≤ v := Nat.div_mul_le_self v a
  have hhigh : v < v / a * a + a := Nat.lt_div_mul_add hpos
  generalize v / a = low at *
  have hmiddle : (2 * low + 1) * a = 2 * (low * a) + a := by ring
  have hnext : (low + 1) * a = low * a + a := by ring
  rw [hmiddle]
  -- The two points are tried as the search tries them.
  cases hcompare : compare (2 * v) (2 * (low * a) + a) with
  | lt =>
    have := Nat.compare_eq_lt.mp hcompare
    simp only
    omega
  | gt =>
    have := Nat.compare_eq_gt.mp hcompare
    simp only [hnext]
    omega
  | eq =>
    have := Nat.compare_eq_eq.mp hcompare
    simp only
    split
    · split
      · omega
      · rw [hnext]
        omega
    · rw [hnext]
      omega

/-- The same in units of the significand. -/
theorem nearer_value_bounds (tie : TieRule) (x : Double) (k : Int) {unit : ℚ}
    (hunit : (10 ^ k / 2 ^ x.scale : ℚ) = unit) :
    x.nearer tie k * unit ≤ x.significand + unit / 2 ∧
      x.significand ≤ x.nearer tie k * unit + unit / 2 := by
  obtain ⟨habove, hbelow⟩ := nearer_bounds tie x k
  have hweights := weights_value k x.scale
  have hpos : (0 : ℚ) < (weights k x.scale).2 := by exact_mod_cast (weights_pos k x.scale).2
  rw [hunit] at hweights
  generalize (weights k x.scale).1 = a at *
  generalize (weights k x.scale).2 = b at *
  generalize x.nearer tie k = c at *
  -- Both weights are multiples of the second one, which is divided by.
  constructor
  · have h : (2 * (c * a) : ℚ) ≤ 2 * (x.significand * b) + a := by exact_mod_cast habove
    rw [hweights] at h
    refine le_of_mul_le_mul_right ?_ hpos
    linarith
  · have h : (2 * (x.significand * b) : ℚ) ≤ 2 * (c * a) + a := by exact_mod_cast hbelow
    rw [hweights] at h
    refine le_of_mul_le_mul_right ?_ hpos
    linarith

/-- A unit of the seventeenth digit is that part of the number. -/
theorem unit_le (hzero : x.isZero = false) :
    (10 ^ (x.leadingExponent - 16) / 2 ^ x.scale : ℚ) ≤ x.significand / 10 ^ 16 := by
  have hleading := weights_leadingExponent_le (significand_ne_zero hzero)
  have hcompare := @le_mul_weights x.leadingExponent x.scale 1 x.significand
  rw [Nat.one_mul, Nat.cast_one, one_mul] at hcompare
  have hten : (10 : ℚ) ^ (x.leadingExponent - 16) = 10 ^ x.leadingExponent / 10 ^ 16 := by
    rw [zpow_sub₀ (by norm_num)]
    norm_num
  rw [hten, div_right_comm]
  exact div_le_div_of_nonneg_right (hcompare.mp hleading) (by norm_num)

/-- **Seventeen digits** are enough for every number. -/
theorem covers_nearer (hzero : x.isZero = false) (tie : TieRule) :
    x.Covers (x.nearer tie (x.leadingExponent - 16) * 10 ^ (x.leadingExponent - 16)) := by
  have hunit := unit_le hzero
  have hlarge : (x.significand : ℚ) < 2 ^ 53 := by exact_mod_cast (canonical hzero).lt
  rw [Covers, mul_div_assoc]
  generalize hdefine : (10 : ℚ) ^ (x.leadingExponent - 16) / 2 ^ x.scale = unit at *
  obtain ⟨habove, hbelow⟩ := nearer_value_bounds tie x _ hdefine
  -- Half a unit is less than half the step between neighbours, as `2 ^ 53` is less than `10 ^ 16`.
  have hhalf : unit / 2 < 1 / 2 := by linarith
  refine ⟨?_, by linarith, fun _ => ⟨by linarith, by linarith⟩⟩
  split
  next hpower =>
    -- Below a power of two the step is half as long, but the number is only half as large.
    rw [hpower.1] at hunit
    push_cast at hunit
    have hquarter : unit / 2 ≤ 1 / 4 := by linarith
    rw [hpower.1] at hbelow ⊢
    linarith
  next => linarith

/-! ### The search -/

/-- Ten units are one of the next larger ones, so a point has the same value however it is written.
-/
theorem value_ofPoint (c : Nat) (k : Int) : (ofPoint c k).value = c * 10 ^ k := by
  rw [ofPoint]
  split
  next hten =>
    rw [Decimal.value, hten, zpow_add_one₀ (by norm_num)]
    push_cast
    ring
  next => rfl

/-- **The shortest decimal** of a number lies in its interval. -/
theorem covers_shortest (hzero : x.isZero = false) (tie : TieRule) :
    x.Covers (x.shortest tie).value := by
  rw [shortest]
  -- A point with up to sixteen digits is found, or seventeen are taken.
  cases hfound : (List.range 16).findSome? fun (n : Nat) =>
      (x.onGrid? tie (x.leadingExponent - n)).map fun c => ofPoint c (x.leadingExponent - n) with
  | none => exact covers_nearer hzero tie
  | some d =>
    obtain ⟨n, -, hn⟩ := List.exists_of_findSome?_eq_some hfound
    obtain ⟨c, hc, rfl⟩ := Option.map_eq_some_iff.mp hn
    rw [Option.getD_some, value_ofPoint]
    exact covers_of_readsAs hzero (readsAs_of_onGrid? hc)

end PinnedBench.Double
