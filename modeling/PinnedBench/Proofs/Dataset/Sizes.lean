import PinnedBench.Dataset.Content
import PinnedBench.Dataset.Descriptor

/-!
# Sizes of arrays

The bytes of an array are counted twice, by different routes. The writer divides the counted bytes
by those of one number and draws that many numbers; the verifier multiplies the two words of the
recorded shape again and holds the result against the file. Both come to the same number, without
wrapping (`Content.size_embeddings`, `Content.size_axes`, `Parameters.arrayBytes?_of_sizes?`).

A checked operation on words gives the number that it stands for, or nothing if that is no word; so
sizes are known by the numbers that they stand for (`arrayBytes?_eq_some_iff`,
`Parameters.sizes?_eq_some_iff`).

That sizes can be counted does not mean that there is room for the arrays in memory. Sizes for which
there is are `Sizes.Allocatable`.
-/

namespace PinnedBench

/-! ### Checked words -/

/-- The checked word of a whole number is the word that stands for it. -/
theorem word?_eq_some_iff {n : Int} {w : UInt64} : word? n = some w ↔ (w.toNat : Int) = n := by
  have hlt := w.toNat_lt
  unfold word?
  change (if 0 ≤ n ∧ n < 18446744073709551616 then _ else _) = _ ↔ _
  constructor
  · intro h
    split at h
    next hn =>
      rw [← Option.some.inj h]
      show ((n.toNat % 2 ^ 64 : Nat) : Int) = n
      omega
    next => simp at h
  · rintro rfl
    rw [if_pos (by omega), Int.toNat_natCast]
    simp

/-- A checked product is the word that stands for the product of the numbers. -/
theorem product?_eq_some_iff {a b c : UInt64} :
    product? a b = some c ↔ c.toNat = a.toNat * b.toNat := by
  have hlt := c.toNat_lt
  unfold product?
  change (if a.toNat * b.toNat < 2 ^ 64 then _ else _) = _ ↔ _
  constructor
  · intro h
    split at h
    next hfits => rw [← Option.some.inj h, UInt64.toNat_mul, Nat.mod_eq_of_lt hfits]
    next => simp at h
  · intro h
    rw [if_pos (by omega), Option.some.injEq, ← UInt64.toNat_inj, UInt64.toNat_mul, ← h,
      Nat.mod_eq_of_lt hlt]

/-- A checked sum is the word that stands for the sum of the numbers. -/
theorem sum?_eq_some_iff {a b c : UInt64} :
    sum? a b = some c ↔ c.toNat = a.toNat + b.toNat := by
  have hlt := c.toNat_lt
  unfold sum?
  change (if a.toNat + b.toNat < 2 ^ 64 then _ else _) = _ ↔ _
  constructor
  · intro h
    split at h
    next hfits => rw [← Option.some.inj h, UInt64.toNat_add, Nat.mod_eq_of_lt hfits]
    next => simp at h
  · intro h
    rw [if_pos (by omega), Option.some.injEq, ← UInt64.toNat_inj, UInt64.toNat_add, ← h,
      Nat.mod_eq_of_lt hlt]

/-- **The bytes of an array**, counted without wrapping. -/
theorem arrayBytes?_eq_some_iff {rows length bytes : UInt64} :
    arrayBytes? rows length = some bytes ↔ bytes.toNat = rows.toNat * length.toNat * 8 := by
  have hlt := bytes.toNat_lt
  unfold arrayBytes?
  rw [Option.bind_eq_some_iff]
  constructor
  · rintro ⟨cells, hcells, hbytes⟩
    rw [product?_eq_some_iff.mp hbytes, product?_eq_some_iff.mp hcells]
    rfl
  · intro h
    -- There are fewer cells than bytes, so counting them does not wrap either.
    have hcells : (rows * length).toNat = rows.toNat * length.toNat := by
      rw [UInt64.toNat_mul, Nat.mod_eq_of_lt (by omega)]
    refine ⟨rows * length, product?_eq_some_iff.mpr hcells, product?_eq_some_iff.mpr ?_⟩
    rw [h, hcells]
    rfl

/-! ### Parameters -/

namespace Parameters

variable {p : Parameters} {s : Sizes}

/-- **The sizes of a dataset** are those of its three counts as words. -/
theorem sizes?_eq_some_iff :
    p.sizes? = some s ↔ ∃ n m d : UInt64,
      (n.toNat : Int) = p.n ∧ (m.toNat : Int) = p.m ∧ (d.toNat : Int) = p.d ∧
      s.embeddings.toNat = n.toNat * d.toNat * 8 ∧ s.axes.toNat = m.toNat * d.toNat * 8 ∧
      s.total.toNat = s.embeddings.toNat + s.axes.toNat := by
  -- Said with checked operations, both sides are the same chain of steps.
  simp only [← word?_eq_some_iff, ← arrayBytes?_eq_some_iff, ← sum?_eq_some_iff]
  constructor
  · intro h
    obtain ⟨d, hd, h⟩ := Option.bind_eq_some_iff.mp h
    obtain ⟨n, hn, h⟩ := Option.bind_eq_some_iff.mp h
    obtain ⟨embeddings, hembeddings, h⟩ := Option.bind_eq_some_iff.mp h
    obtain ⟨m, hm, h⟩ := Option.bind_eq_some_iff.mp h
    obtain ⟨axes, haxes, h⟩ := Option.bind_eq_some_iff.mp h
    obtain ⟨total, htotal, h⟩ := Option.bind_eq_some_iff.mp h
    obtain rfl := Option.some.inj h
    exact ⟨n, m, d, hn, hm, hd, hembeddings, haxes, htotal⟩
  · rintro ⟨n, m, d, hn, hm, hd, hembeddings, haxes, htotal⟩
    unfold sizes?
    simp [hn, hm, hd, hembeddings, haxes, htotal]

/-- **The counted bytes** are those that the recorded shapes require. -/
theorem arrayBytes?_of_sizes? (h : p.sizes? = some s) :
    arrayBytes? p.n.toNat.toUInt64 p.d.toNat.toUInt64 = some s.embeddings ∧
      arrayBytes? p.m.toNat.toUInt64 p.d.toNat.toUInt64 = some s.axes := by
  obtain ⟨n, m, d, hn, hm, hd, hembeddings, haxes, -⟩ := sizes?_eq_some_iff.mp h
  have hword : ∀ w : UInt64, (w.toNat : Int).toNat.toUInt64 = w := by
    intro w
    simp
  rw [← hn, ← hm, ← hd, hword, hword, hword, arrayBytes?_eq_some_iff, arrayBytes?_eq_some_iff]
  exact ⟨hembeddings, haxes⟩

/-- The total is the sum of the two sizes, without wrapping. -/
theorem toNat_total (h : p.sizes? = some s) :
    s.total.toNat = s.embeddings.toNat + s.axes.toNat := by
  obtain ⟨_, _, _, -, -, -, -, -, htotal⟩ := sizes?_eq_some_iff.mp h
  exact htotal

theorem sizes_eq_ok (h : p.sizes = .ok s) : p.sizes? = some s := by
  rw [sizes] at h
  split at h
  next hs => rw [hs, Except.ok.inj h]
  next => simp at h

end Parameters

/-! ### Memory -/

/-- There is room in memory for either array of a dataset. -/
structure Sizes.Allocatable (s : Sizes) : Prop where
  /-- There is room for the embeddings. -/
  embeddings : s.embeddings.toNat < memoryLimit
  /-- There is room for the axes. -/
  axes : s.axes.toNat < memoryLimit

instance (s : Sizes) : Decidable s.Allocatable :=
  decidable_of_iff (s.embeddings.toNat < memoryLimit ∧ s.axes.toNat < memoryLimit)
    ⟨fun h => ⟨h.1, h.2⟩, fun h => ⟨h.1, h.2⟩⟩

/-- There is room in memory for the arrays of a dataset with these parameters, if their bytes can be
counted. -/
def Parameters.Allocatable (p : Parameters) : Prop := ∀ s, p.sizes? = some s → s.Allocatable

theorem allocate_of_lt {bytes : UInt64} (h : bytes.toNat < memoryLimit) :
    allocate bytes = .ok () := if_pos h

/-- From the limit on there is none, and the number of bytes is in the error. -/
theorem allocate_of_le {bytes : UInt64} (h : memoryLimit ≤ bytes.toNat) :
    allocate bytes = .error (.unallocatable bytes) := if_neg (Nat.not_lt.mpr h)

/-! ### Contents -/

/-- Every number takes up eight bytes. -/
theorem size_storedBytes (xs : List Double) : (storedBytes xs).size = 8 * xs.length := by
  change (xs.flatMap Double.toBytes).toArray.size = 8 * xs.length
  rw [List.size_toArray]
  induction xs with
  | nil => rfl
  | cons x xs ih =>
    rw [List.flatMap_cons, List.length_append, Double.length_toBytes, ih, List.length_cons]
    omega

namespace Content

variable {p : Parameters} {s : Sizes}

/-- As many numbers as fit the counted bytes take up all of them. -/
theorem cells_mul {rows length bytes : UInt64} (h : arrayBytes? rows length = some bytes) :
    8 * cellCount bytes = bytes.toNat := by
  -- The bytes are a multiple of eight, so dividing them loses nothing.
  have hbytes := arrayBytes?_eq_some_iff.mp h
  rw [cellCount, UInt64.toNat_div]
  change 8 * (bytes.toNat / 8) = bytes.toNat
  omega

/-- **The embeddings** take up the counted bytes. -/
theorem size_embeddings (h : p.sizes? = some s) :
    (generate p s).embeddings.size = s.embeddings.toNat := by
  have hcount := cells_mul (Parameters.arrayBytes?_of_sizes? h).1
  change (storedBytes (draws Generator.normal _ _).1).size = _
  rw [size_storedBytes, length_draws, hcount]

/-- **The axes** take up the counted bytes. -/
theorem size_axes (h : p.sizes? = some s) : (generate p s).axes.size = s.axes.toNat := by
  have hcount := cells_mul (Parameters.arrayBytes?_of_sizes? h).2
  change (storedBytes (draws Generator.normal _ _).1).size = _
  rw [size_storedBytes, length_draws, hcount]

end Content

end PinnedBench
