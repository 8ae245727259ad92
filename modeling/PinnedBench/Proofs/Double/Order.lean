import Mathlib
import PinnedBench.Proofs.Double.Quotients

/-!
# Comparisons of stored numbers

The machine compares two patterns that stand for numbers, infinite ones included, by their places
(`Double.lt_iff`, `Double.le_iff`); a pattern that stands for no number is neither below nor above
any other. The places are not unpacked: what the machine compares, sign, exponent and significand,
is in the order of the whole numbers that the bits are (`Double.compares_fields`).

So the largest of a list of numbers is one of them and bounds the others (`Double.foldl_maximum`),
and whole numbers that fit a significand keep their order (`Double.natCast_lt_natCast`).
-/

namespace PinnedBench

open Float.Model Float.Model.UnpackedFloat

namespace Double

open Rounding

variable {x y : Double}

/-- The place is the pattern without its sign, with the sign of the machine. -/
theorem place_eq (x : Double) : x.place = x.sign.apply x.unsigned := by
  rw [place, sign_eq]
  split
  · rfl
  · rfl

/-! ### How the machine compares -/

/-- A smaller pattern has a smaller scale, or the same scale and a smaller significand. -/
theorem fields_lt_fields (h : x.unsigned < y.unsigned) :
    x.scale < y.scale ∨ x.scale = y.scale ∧ x.significand < y.significand := by
  have hx : x.exponentField * 2 ^ 52 + x.fractionField = x.unsigned := Nat.div_add_mod' _ _
  have hy : y.exponentField * 2 ^ 52 + y.fractionField = y.unsigned := Nat.div_add_mod' _ _
  have hfraction : x.fractionField < 2 ^ 52 := Nat.mod_lt _ (by decide)
  have hfraction' : y.fractionField < 2 ^ 52 := Nat.mod_lt _ (by decide)
  have hleading : powerOfTwo 52 = 2 ^ 52 := rfl
  -- With no exponent the leading bit is missing; the scale is then that of the smallest exponent.
  rw [scale, scale, significand, significand, hleading]
  split <;> split <;> omega

/-- Scales first and significands next is the order of the patterns without their signs. -/
theorem compares_fields (x y : Double) :
    ((compare x.scale y.scale).then (compare x.significand y.significand)).Compares
      x.unsigned y.unsigned := by
  rcases lt_trichotomy x.unsigned y.unsigned with h | h | h
  · rcases fields_lt_fields h with hscale | ⟨hscale, hsignificand⟩
    · rwa [compare_lt_iff_lt.mpr hscale]
    · rwa [compare_eq_iff_eq.mpr hscale, compare_lt_iff_lt.mpr hsignificand]
  · have hexponent : x.exponentField = y.exponentField := by
      rw [exponentField, h]
      rfl
    have hfraction : x.fractionField = y.fractionField := by
      rw [fractionField, h]
      rfl
    rwa [scale, scale, significand, significand, hexponent, hfraction,
      compare_eq_iff_eq.mpr rfl, compare_eq_iff_eq.mpr rfl]
  · rcases fields_lt_fields h with hscale | ⟨hscale, hsignificand⟩
    · rwa [compare_gt_iff_gt.mpr hscale]
    · rwa [compare_eq_iff_eq.mpr hscale.symm, compare_gt_iff_gt.mpr hsignificand]

theorem compares_neg {o : Ordering} {m n : Nat} (h : o.Compares m n) :
    o.swap.Compares (-(m : Int)) (-n) := by
  cases o <;> simp only [Ordering.swap, Ordering.Compares] at h ⊢ <;> omega

/-- What a pattern that stands for a number is unpacked into. -/
theorem unpack_cases (hx : x.isUndefined = false) :
    (x.unsigned = 0 ∧ UnpackedFloat.unpack Format.binary64 x.bits.toBitVec = .zero x.sign) ∨
    (0 < x.unsigned ∧ x.unsigned < 2047 * 2 ^ 52 ∧ ∃ hpos,
      UnpackedFloat.unpack Format.binary64 x.bits.toBitVec =
        .finite x.sign x.significand x.scale hpos) ∨
    (x.unsigned = 2047 * 2 ^ 52 ∧
      UnpackedFloat.unpack Format.binary64 x.bits.toBitVec = .infinity x.sign) := by
  have hfields : x.exponentField * 2 ^ 52 + x.fractionField = x.unsigned := Nat.div_add_mod' _ _
  have hfraction : x.fractionField < 2 ^ 52 := Nat.mod_lt _ (by decide)
  -- All exponents but the highest one are for zeros and finite numbers.
  by_cases hfinite : x.isFinite = true
  · have hexponent : x.exponentField < 2047 := of_decide_eq_true hfinite
    cases hzero : x.isZero with
    | true => exact .inl ⟨by simpa [isZero] using hzero, unpack_of_isZero hzero⟩
    | false =>
      have hne : x.unsigned ≠ 0 := by simpa [isZero] using hzero
      have hpos := Nat.pos_of_ne_zero (significand_ne_zero hzero)
      exact .inr (.inl ⟨by omega, by omega, hpos, unpack_of_pos hfinite hpos⟩)
  · have hunsigned : x.unsigned < 2 ^ 63 := by
      rw [unsigned_eq]
      exact Nat.mod_lt _ (by decide)
    -- The highest exponent without a fraction is infinity, as with one it would be no number.
    have hexponent : x.exponentField = 2047 := by
      rw [isFinite, decide_eq_true_iff] at hfinite
      omega
    have hnone : x.fractionField = 0 := by simpa [isUndefined, hexponent] using hx
    have hones : @unpackExponent Format.binary64 x.bits.toBitVec = -1#_ := by
      apply BitVec.eq_of_toNat_eq
      rw [← exponentField_eq, hexponent]
      rfl
    have hmantissa : @unpackMantissa Format.binary64 x.bits.toBitVec = 0#_ := by
      apply BitVec.eq_of_toNat_eq
      rw [← fractionField_eq, hnone]
      rfl
    refine .inr (.inr ⟨by omega, ?_⟩)
    rw [UnpackedFloat.unpack]
    simp only [hones, hmantissa, if_true]
    rfl

/-- Two patterns that stand for numbers are compared by their places. -/
theorem compare_of_defined (hx : x.isUndefined = false) (hy : y.isUndefined = false) :
    ∃ o, UnpackedFloat.compare x.toFloat.toModel.unpack y.toFloat.toModel.unpack = some o ∧
      o.Compares x.place y.place := by
  have hfields := compares_fields x y
  rw [unpack_toFloat_of_defined hx, unpack_toFloat_of_defined hy, place_eq, place_eq]
  rcases unpack_cases hx with ⟨hm, hx⟩ | ⟨hm, htop, hpos, hx⟩ | ⟨hm, hx⟩ <;>
    rcases unpack_cases hy with ⟨hn, hy⟩ | ⟨hn, htop', hpos', hy⟩ | ⟨hn, hy⟩ <;>
    rw [hx, hy] <;> cases x.sign <;> cases y.sign <;> refine ⟨_, rfl, ?_⟩
  -- Two numbers of one sign that are neither zero nor infinite are compared by their fields.
  case inr.inl.inr.inl.positive.positive => exact Int.natCast_strictMono.compares.mpr hfields
  case inr.inl.inr.inl.negative.negative => exact compares_neg hfields
  -- Otherwise the signs decide, or that one of the two is zero or infinite.
  all_goals
    first
    | change (_ : Int) < _
    | change (_ : Int) = _
    simp only [Sign.apply]
    omega

/-- Any pattern that stands for no number is unpacked into the one of the machine. -/
theorem unpack_toFloat_of_isUndefined (hx : x.isUndefined = true) :
    x.toFloat.toModel.unpack = .notANumber := by
  rw [isUndefined, Bool.and_eq_true, beq_iff_eq, bne_iff_ne] at hx
  obtain ⟨hexponent, hfraction⟩ := hx
  have hones : @unpackExponent Format.binary64 x.bits.toBitVec = -1#_ := by
    apply BitVec.eq_of_toNat_eq
    rw [← exponentField_eq, hexponent]
    rfl
  have hmantissa : @unpackMantissa Format.binary64 x.bits.toBitVec ≠ 0#_ := by
    intro hnone
    rw [fractionField_eq, hnone] at hfraction
    exact hfraction rfl
  have hunpack : UnpackedFloat.unpack Format.binary64 x.bits.toBitVec = .notANumber := by
    rw [UnpackedFloat.unpack]
    simp only [hones, hmantissa, if_true, if_false]
  change UnpackedFloat.unpack Format.binary64
    (UnpackedFloat.pack Format.binary64 (UnpackedFloat.unpack Format.binary64 x.bits.toBitVec)) = _
  rw [hunpack]
  rfl

/-- **The machine compares** numbers by their places, and nothing else. -/
theorem compare_cases (x y : Double) :
    (¬(x.isUndefined = false ∧ y.isUndefined = false) ∧
      UnpackedFloat.compare x.toFloat.toModel.unpack y.toFloat.toModel.unpack = none) ∨
    ((x.isUndefined = false ∧ y.isUndefined = false) ∧ ∃ o,
      UnpackedFloat.compare x.toFloat.toModel.unpack y.toFloat.toModel.unpack = some o ∧
        o.Compares x.place y.place) := by
  -- One side that is no number is enough for there being no order.
  cases hx : x.isUndefined with
  | true =>
    refine .inl ⟨by simp, ?_⟩
    rw [unpack_toFloat_of_isUndefined hx]
    rfl
  | false =>
    cases hy : y.isUndefined with
    | true =>
      refine .inl ⟨by simp, ?_⟩
      rw [unpack_toFloat_of_isUndefined hy]
      cases x.toFloat.toModel.unpack <;> rfl
    | false => exact .inr ⟨⟨rfl, rfl⟩, compare_of_defined hx hy⟩

/-- **Below** is being a number with a smaller place. -/
theorem lt_iff : x < y ↔ (x.isUndefined = false ∧ y.isUndefined = false) ∧ x.place < y.place := by
  have hcompare : x < y ↔
      UnpackedFloat.compare x.toFloat.toModel.unpack y.toFloat.toModel.unpack = some .lt := by
    show decide (x.toFloat.toModel < y.toFloat.toModel) = true ↔ _
    rw [decide_eq_true_iff]
    exact beq_iff_eq
  rw [hcompare]
  rcases compare_cases x y with ⟨hundefined, h⟩ | ⟨hdefined, o, h, hplaces⟩
  · rw [h]
    exact ⟨nofun, fun hboth => absurd hboth.1 hundefined⟩
  · rw [h, Option.some.injEq, hplaces.eq_lt, and_iff_right hdefined]

/-- **At most** is being a number with a place that is not larger. -/
theorem le_iff : x ≤ y ↔ (x.isUndefined = false ∧ y.isUndefined = false) ∧ x.place ≤ y.place := by
  have hcompare : x ≤ y ↔ (UnpackedFloat.compare x.toFloat.toModel.unpack
      y.toFloat.toModel.unpack).any (·.isLE) = true := decide_eq_true_iff
  rw [hcompare]
  rcases compare_cases x y with ⟨hundefined, h⟩ | ⟨hdefined, o, h, hplaces⟩
  · rw [h]
    exact ⟨nofun, fun hboth => absurd hboth.1 hundefined⟩
  · rw [h, Option.any_some, Ordering.isLE_iff_ne_gt, ← ne_eq, hplaces.ne_gt, and_iff_right hdefined]

/-- What is below is at most. -/
protected theorem le_of_lt (h : x < y) : x ≤ y := by
  rw [lt_iff] at h
  exact le_iff.mpr ⟨h.1, h.2.le⟩

/-- The order of the machine goes on from one number to the next. -/
protected theorem le_trans {z : Double} (h : x ≤ y) (h' : y ≤ z) : x ≤ z := by
  rw [le_iff] at h h' ⊢
  exact ⟨⟨h.1.1, h'.1.2⟩, h.2.trans h'.2⟩

/-- A pattern is at most itself if it stands for a number. -/
theorem le_self (hx : x.isUndefined = false) : x ≤ x := le_iff.mpr ⟨⟨hx, hx⟩, le_rfl⟩

/-- Of two numbers, the second is at least the first if it is not below it. -/
protected theorem le_of_not_lt (hx : x.isUndefined = false) (hy : y.isUndefined = false)
    (h : ¬y < x) :
    x ≤ y := by
  rw [lt_iff, and_iff_right ⟨hy, hx⟩, not_lt] at h
  exact le_iff.mpr ⟨⟨hx, hy⟩, h⟩

theorem lt_of_value_lt (hx : x.isFinite = true) (hy : y.isFinite = true) (h : x.value < y.value) :
    x < y := by
  have hplace : x.place < y.place := by
    by_contra hle
    exact absurd (value_le_of_place (not_lt.mp hle)) (not_le.mpr h)
  exact lt_iff.mpr ⟨⟨isUndefined_of_isFinite hx, isUndefined_of_isFinite hy⟩, hplace⟩

/-- What is at most for the machine stands for no larger number. -/
theorem value_le_of_le (h : x ≤ y) : x.value ≤ y.value := value_le_of_place (le_iff.mp h).2

/-- Of two finite numbers one is at most the other. -/
theorem value_le_of_not_le (hx : x.isFinite = true) (hy : y.isFinite = true) (h : ¬x ≤ y) :
    y.value ≤ x.value := by
  rw [le_iff, and_iff_right ⟨isUndefined_of_isFinite hx, isUndefined_of_isFinite hy⟩, not_le] at h
  exact value_le_of_place h.le

/-- A whole number that fits a significand is a number. -/
theorem isUndefined_natCast {n : Nat} (hn : n < 2 ^ 53) : (n : Double).isUndefined = false :=
  isUndefined_of_isFinite (isFinite_natCast hn)

/-- A finite number that stands for nothing negative is not below zero. -/
theorem zero_le_of_value (hx : x.isFinite = true) (h : 0 ≤ x.value) : ((0 : Nat) : Double) ≤ x := by
  have hplace : ((0 : Nat) : Double).place = 0 := by decide +kernel
  rw [le_iff, hplace]
  refine ⟨⟨isUndefined_natCast (by decide), isUndefined_of_isFinite hx⟩, ?_⟩
  rw [place]
  split
  next hnegative =>
    -- The sign is that of the negative zero then.
    have hzero : x.isZero = true := by
      by_contra hnonzero
      have hpos := size_pos (Bool.not_eq_true _ ▸ hnonzero)
      rw [value, if_pos hnegative] at h
      linarith
    rw [isZero, beq_iff_eq] at hzero
    omega
  next => omega

/-- A number above zero stands for one. -/
theorem value_pos (h : ((0 : Nat) : Double) < x) : 0 < x.value := by
  have hplace : ((0 : Nat) : Double).place = 0 := by decide +kernel
  have hpos := (lt_iff.mp h).2
  rw [hplace, place] at hpos
  rw [value]
  -- A negative pattern has a place below zero or that of zero, so this one is positive.
  split at hpos
  next => omega
  next hpositive =>
    rw [if_neg hpositive]
    refine size_pos ?_
    rw [isZero, beq_eq_false_iff_ne]
    omega

/-- **Whole numbers** that fit a significand are compared as whole numbers. -/
theorem natCast_lt_natCast {m n : Nat} (h : m < n) (hn : n < 2 ^ 53) :
    (m : Double) < (n : Double) := by
  apply lt_of_value_lt
  · exact isFinite_natCast (h.trans hn)
  · exact isFinite_natCast hn
  · rw [value_natCast_of_lt (h.trans hn), value_natCast_of_lt hn]
    exact_mod_cast h

/-! ### Magnitudes -/

theorem unsigned_magnitude (x : Double) : (magnitude x).unsigned = x.unsigned := by
  have hmask : (x.bits &&& 0x7fffffffffffffff) &&& 0x7fffffffffffffff =
      x.bits &&& 0x7fffffffffffffff := by
    rw [UInt64.and_assoc, UInt64.and_self]
  exact congrArg UInt64.toNat hmask

theorem isFinite_magnitude : (magnitude x).isFinite = x.isFinite := by
  rw [isFinite, isFinite, exponentField, exponentField, unsigned_magnitude]

/-- **The magnitude** stands for the absolute value. -/
theorem value_magnitude (x : Double) : (magnitude x).value = |x.value| := by
  have hpositive : (magnitude x).isNegative = false := by
    have hmask : (x.bits &&& 0x7fffffffffffffff) &&& signBit = 0 := by
      rw [UInt64.and_assoc]
      exact UInt64.and_zero
    change ((x.bits &&& 0x7fffffffffffffff) &&& signBit != 0) = false
    rw [hmask]
    rfl
  -- The size is read off the bits below the sign.
  have hsize : (magnitude x).size = x.size :=
    le_antisymm (size_le_size (unsigned_magnitude x).le) (size_le_size (unsigned_magnitude x).ge)
  rw [abs_value, value, hpositive, ← hsize]
  rfl

theorem abs_value_le_of_magnitude (h : magnitude x ≤ magnitude y) : |x.value| ≤ |y.value| := by
  rw [← value_magnitude, ← value_magnitude]
  exact value_le_of_le h

/-- If one magnitude is not at most the other, the other is at most it. -/
theorem abs_value_le_of_not_magnitude (hx : x.isFinite = true) (hy : y.isFinite = true)
    (h : ¬magnitude x ≤ magnitude y) : |y.value| ≤ |x.value| := by
  rw [← value_magnitude, ← value_magnitude]
  exact value_le_of_not_le (isFinite_magnitude.trans hx) (isFinite_magnitude.trans hy) h

/-! ### The largest of a list -/

/-- The larger of two is at least the first, even if the second is no number. -/
theorem le_maximum (hx : x.isUndefined = false) (y : Double) : x ≤ maximum x y := by
  rw [maximum, hx]
  split
  next h => exact Double.le_of_lt h
  next h => exact le_self hx

/-- The larger of two numbers is one of them and at least the second. -/
theorem maximum_cases (hx : x.isUndefined = false) (hy : y.isUndefined = false) :
    (maximum x y = x ∨ maximum x y = y) ∧ y ≤ maximum x y := by
  rw [maximum, hx]
  split
  next h => exact ⟨.inr rfl, le_self hy⟩
  next h => exact ⟨.inl rfl, Double.le_of_not_lt hy hx h⟩

/-- **The largest** of numbers is one of them and bounds them all. -/
theorem foldl_maximum {xs : List Double} (hx : x.isUndefined = false)
    (hxs : ∀ y ∈ xs, y.isUndefined = false) :
    xs.foldl maximum x ∈ x :: xs ∧ ∀ y ∈ x :: xs, y ≤ xs.foldl maximum x := by
  -- The number at the front of the fold is the largest so far, so it is general.
  induction xs generalizing x with
  | nil =>
    refine ⟨List.mem_singleton_self x, fun y hy => ?_⟩
    rw [List.mem_singleton.mp hy]
    exact le_self hx
  | cons y xs ih =>
    have hy := hxs y List.mem_cons_self
    obtain ⟨heither, hle⟩ := maximum_cases hx hy
    -- The larger of the first two is one of them, and it is a number.
    have hlarger : maximum x y ∈ [x, y] ∧ (maximum x y).isUndefined = false := by
      rcases heither with h | h
      · rw [h]
        exact ⟨by simp, hx⟩
      · rw [h]
        exact ⟨by simp, hy⟩
    obtain ⟨hmem, hbound⟩ := ih hlarger.2 fun z hz => hxs z (List.mem_cons_of_mem _ hz)
    have hlast := hbound _ List.mem_cons_self
    constructor
    · rcases List.mem_cons.mp hmem with h | h
      · rw [List.foldl_cons, h]
        exact List.mem_append_left xs hlarger.1
      · exact List.mem_append_right [x, y] h
    · intro z hz
      -- What the larger of the first two bounds is bounded by the largest.
      rcases List.mem_cons.mp hz with rfl | hz
      · exact Double.le_trans (le_maximum hx y) hlast
      · rcases List.mem_cons.mp hz with rfl | hz
        · exact Double.le_trans hle hlast
        · exact hbound z (List.mem_cons_of_mem _ hz)

/-! ### Results that are numbers -/

theorem isFinite_of_unsigned_lt (h : x.unsigned < 2047 * 2 ^ 52) : x.isFinite = true := by
  have hleading : powerOfTwo 52 = 2 ^ 52 := rfl
  rw [isFinite, decide_eq_true_iff, exponentField, hleading]
  omega

/-- What is stored of a result that is a number is a number. -/
theorem isUndefined_ofFloat_pack {u : UnpackedFloat} (hu : u ≠ .notANumber) :
    (ofFloat (.ofModel (.pack u))).isUndefined = false := by
  generalize hz : ofFloat (.ofModel (.pack u)) = z
  have hbits : z.bits.toBitVec = UnpackedFloat.pack Format.binary64 u := by
    rw [← hz]
    rfl
  match u with
  | .notANumber => exact absurd rfl hu
  | .infinity s =>
    subst hz
    cases s <;> decide +kernel
  | .zero s =>
    subst hz
    cases s <;> decide +kernel
  | .finite s m e hm =>
    have hexponents : 2 ^ Format.binary64.exponentBits = 2048 := rfl
    suffices h : z.exponentField ≠ 2047 ∨ z.fractionField = 0 by
      rw [isUndefined, Bool.and_eq_false_iff, beq_eq_false_iff_ne, bne_eq_false_iff_eq]
      exact h
    rw [exponentField_eq, fractionField_eq, hbits, UnpackedFloat.pack]
    dsimp only
    rw [hexponents]
    split
    next hlarge =>
      -- What is too large is stored as infinity.
      right
      rw [packedInfinity, unpackMantissa_packComponents]
      rfl
    next hsmall =>
      left
      split
      · rw [unpackExponent_packComponents, BitVec.toNat_ofNat, hexponents]
        omega
      · rw [unpackExponent_packComponents]
        decide

/-- **The product** of finite numbers is a number. -/
theorem isUndefined_mul (hx : x.isFinite = true) (hy : y.isFinite = true) :
    (x * y).isUndefined = false := by
  apply isUndefined_ofFloat_pack (u := UnpackedFloat.mul Format.binary64 _ _)
  intro h
  -- The exact product is a number, infinite or not after rounding.
  have hstored := (numberOf_mul (isStored_toFloat hx) (isStored_toFloat hy)).1
  rw [h] at hstored
  exact hstored

/-- **The sum** of a finite number and any other number is a number. -/
theorem isUndefined_add (hx : x.isFinite = true) (hy : y.isUndefined = false) :
    (x + y).isUndefined = false := by
  apply isUndefined_ofFloat_pack (u := UnpackedFloat.add Format.binary64 _ _)
  intro h
  by_cases hfinite : y.isFinite = true
  · have hstored := (numberOf_add (isStored_toFloat hx) (isStored_toFloat hfinite)).1
    rw [h] at hstored
    exact hstored
  · have hinfinite : y.toFloat.toModel.unpack = .infinity y.sign := by
      rw [unpack_toFloat_of_defined hy]
      rcases unpack_cases hy with ⟨hzero, -⟩ | ⟨-, htop, -⟩ | ⟨-, hunpack⟩
      · exact absurd (isFinite_of_unsigned_lt (by omega)) hfinite
      · exact absurd (isFinite_of_unsigned_lt htop) hfinite
      · exact hunpack
    -- Infinity is the sum then.
    have hstored := isStored_toFloat hx
    rw [hinfinite] at h
    generalize x.toFloat.toModel.unpack = u at h hstored
    cases u with
    | zero s => exact nomatch h
    | finite s m e hm => exact nomatch h
    | infinity s => exact hstored
    | notANumber => exact hstored

end Double

end PinnedBench
