import Mathlib
import PinnedBench.Proofs.Dataset.Verification

/-!
# Which sizes are admitted

Parameters are valid exactly if their three counts are positive and both arrays together have fewer
bytes than a word can count, read as whole numbers (`Parameters.validate_eq_ok_iff`). An array alone
may fit where the two together do not; only the total decides, because each part is at most the
total.

Of valid parameters nothing wraps. The sizes are the products, the numbers that are drawn are as
many as the arrays have cells, and the recorded words are the counts (`Parameters.counts_of_sizes?`,
`Parameters.records_of_sizes?`). So the verifier, which counts the bytes of the recorded shapes
again, never finds that they overflow. Parameters that are not valid are refused before anything is
looked at (`Dataset.runOn_generate_of_invalid`). All of this is put together in
`Dataset.sizes_admitted`.
-/

namespace PinnedBench

/-- A number below `2 ^ 64` is a word. -/
theorem exists_word {k : Nat} (h : k < 2 ^ 64) : ∃ w : UInt64, w.toNat = k :=
  ⟨.ofNat k, UInt64.toNat_ofNat_of_lt h⟩

namespace Parameters

variable {p : Parameters} {s : Sizes}

/-- Positive counts of arrays whose bytes a word can count. -/
structure Admissible (p : Parameters) : Prop where
  /-- There is a vector, -/
  n_pos : 1 ≤ p.n
  /-- there is an axis, -/
  m_pos : 1 ≤ p.m
  /-- and they have a dimension. -/
  d_pos : 1 ≤ p.d
  /-- Both arrays together have fewer than `2 ^ 64` bytes. -/
  bytes_lt : 8 * p.d * (p.n + p.m) < 2 ^ 64

/-! ### When parameters are valid -/

/-- The total is that of the products, as whole numbers. -/
theorem toNat_total_eq (h : p.sizes? = some s) :
    (s.total.toNat : Int) = 8 * p.d * (p.n + p.m) := by
  obtain ⟨n, m, d, hn, hm, hd, he, ha, ht⟩ := sizes?_eq_some_iff.mp h
  rw [ht, he, ha, ← hn, ← hm, ← hd]
  push_cast
  ring

/-- **Admissible parameters** have sizes. -/
theorem Admissible.exists_sizes? (h : p.Admissible) : ∃ s, p.sizes? = some s := by
  obtain ⟨n, m, d, seed⟩ := p
  obtain ⟨hn, hm, hd, hlt⟩ := h
  dsimp only at hn hm hd hlt
  lift n to ℕ using by omega
  lift m to ℕ using by omega
  lift d to ℕ using by omega
  norm_cast at hn hm hd hlt
  -- The total bounds the counts and the parts, each of which is a factor or a summand of it.
  have htotal : n * d * 8 + m * d * 8 = 8 * d * (n + m) := by ring
  have hrows : n + m ≤ 8 * d * (n + m) := Nat.le_mul_of_pos_left (n + m) (by omega)
  have hlength : d ≤ 8 * d * (n + m) := by
    calc d ≤ 8 * d := by omega
      _ ≤ 8 * d * (n + m) := Nat.le_mul_of_pos_right (8 * d) (by omega)
  obtain ⟨n', hn'⟩ := exists_word (k := n) (by omega)
  obtain ⟨m', hm'⟩ := exists_word (k := m) (by omega)
  obtain ⟨d', hd'⟩ := exists_word (k := d) (by omega)
  obtain ⟨e, he⟩ := exists_word (k := n * d * 8) (by omega)
  obtain ⟨a, ha⟩ := exists_word (k := m * d * 8) (by omega)
  obtain ⟨t, ht⟩ := exists_word (k := n * d * 8 + m * d * 8) (by omega)
  refine ⟨⟨e, a, t⟩, sizes?_eq_some_iff.mpr ⟨n', m', d', ?_⟩⟩
  dsimp only
  rw [hn', hm', hd', he, ha, ht]
  exact ⟨rfl, rfl, rfl, rfl, rfl, rfl⟩

/-- Parameters are valid if the counts are positive and the sizes can be computed. -/
theorem validate_eq_ok :
    p.validate = .ok () ↔ 1 ≤ p.n ∧ 1 ≤ p.m ∧ 1 ≤ p.d ∧ ∃ s, p.sizes = .ok s := by
  unfold validate
  split
  next hnonpos =>
    constructor
    · intro h
      simp at h
    · rintro ⟨hn, hm, hd, -⟩
      omega
  next hpos =>
    rw [map_eq_ok]
    constructor
    · rintro ⟨s, hs, -⟩
      exact ⟨by omega, by omega, by omega, s, hs⟩
    · rintro ⟨-, -, -, s, hs⟩
      exact ⟨s, hs, rfl⟩

/-- Sizes are computed exactly if no product and no sum wraps. -/
theorem sizes_eq_ok_iff : p.sizes = .ok s ↔ p.sizes? = some s := by
  refine ⟨sizes_eq_ok, fun h => ?_⟩
  unfold sizes
  rw [h]

/-- **Parameters are valid** exactly if they are admissible. -/
theorem validate_eq_ok_iff : p.validate = .ok () ↔ p.Admissible := by
  rw [validate_eq_ok]
  constructor
  · rintro ⟨hn, hm, hd, s, hs⟩
    refine ⟨hn, hm, hd, ?_⟩
    -- Sizes that can be computed have a total that is a word.
    rw [← toNat_total_eq (sizes_eq_ok hs)]
    exact_mod_cast s.total.toNat_lt
  · intro h
    obtain ⟨s, hs⟩ := h.exists_sizes?
    exact ⟨h.n_pos, h.m_pos, h.d_pos, s, sizes_eq_ok_iff.mpr hs⟩

/-! ### What valid parameters count -/

/-- Sizes that are the products of the counts, and make as many cells. -/
structure Counts (p : Parameters) (s : Sizes) : Prop where
  /-- The bytes of the vectors are eight for each of their numbers, -/
  embeddings : (s.embeddings.toNat : Int) = 8 * p.n * p.d
  /-- those of the axes as well, -/
  axes : (s.axes.toNat : Int) = 8 * p.m * p.d
  /-- and the total is that of both arrays. -/
  total : (s.total.toNat : Int) = 8 * p.d * (p.n + p.m)
  /-- Divided by eight, the bytes of the vectors give back the count of their numbers, -/
  embeddings_cells : ((s.embeddings / cellBytes).toNat : Int) = p.n * p.d
  /-- and those of the axes theirs. -/
  axes_cells : ((s.axes / cellBytes).toNat : Int) = p.m * p.d

/-- Sizes that can be computed are the products, and divided by eight they are the numbers of cells.
-/
theorem counts_of_sizes? (h : p.sizes? = some s) : p.Counts s := by
  obtain ⟨n, m, d, hn, hm, hd, he, ha, -⟩ := sizes?_eq_some_iff.mp h
  -- Each array has eight bytes for every cell, and the division gives them back without a rest.
  obtain ⟨hembeddings, haxes⟩ := arrayBytes?_of_sizes? h
  have hecells := Content.cells_mul hembeddings
  have hacells := Content.cells_mul haxes
  rw [cellCount] at hecells hacells
  have he' : (s.embeddings.toNat : Int) = 8 * p.n * p.d := by
    rw [he, ← hn, ← hd]
    push_cast
    ring
  have ha' : (s.axes.toNat : Int) = 8 * p.m * p.d := by
    rw [ha, ← hm, ← hd]
    push_cast
    ring
  constructor
  · exact he'
  · exact ha'
  · exact toNat_total_eq h
  · rw [mul_assoc] at he'
    omega
  · rw [mul_assoc] at ha'
    omega

end Parameters

/-- A descriptor that records the counts of some parameters, with shapes whose bytes can be counted
and are the recorded ones. -/
structure Descriptor.Records (x : Descriptor) (p : Parameters) : Prop where
  /-- The count of vectors, -/
  n : (x.n.toNat : Int) = p.n
  /-- the count of axes -/
  m : (x.m.toNat : Int) = p.m
  /-- and the dimension are recorded as words. -/
  d : (x.d.toNat : Int) = p.d
  /-- Counting the bytes of the first shape does not overflow and gives the recorded ones, -/
  embeddings : arrayBytes? x.embeddingsShape.1 x.embeddingsShape.2 = some x.sizes.embeddings
  /-- and so with the second shape. -/
  axes : arrayBytes? x.axesShape.1 x.axesShape.2 = some x.sizes.axes

theorem Parameters.records_of_sizes? {p : Parameters} {s : Sizes} (h : p.sizes? = some s)
    (c : Content) : (Descriptor.of p s c).Records p := by
  obtain ⟨n, m, d, hn, hm, hd, -⟩ := sizes?_eq_some_iff.mp h
  obtain ⟨hembeddings, haxes⟩ := arrayBytes?_of_sizes? h
  have hword : ∀ w : UInt64, ((w.toNat : Int).toNat.toUInt64.toNat : Int) = w.toNat := by
    intro w
    simp
  constructor
  · show (p.n.toNat.toUInt64.toNat : Int) = p.n
    rw [← hn, hword]
  · show (p.m.toNat.toUInt64.toNat : Int) = p.m
    rw [← hm, hword]
  · show (p.d.toNat.toUInt64.toNat : Int) = p.d
    rw [← hd, hword]
  · exact hembeddings
  · exact haxes

namespace Dataset

variable {σ : Type} [Files (StateM σ)]

/-! ### Refusals -/

/-- Invalid parameters end a generation before anything is looked at. -/
theorem runOn_generate_of_invalid {p : Parameters} {cause : ParameterFault}
    (h : p.validate = .error cause) (d : Path) (overwrite : Bool) (m : σ) :
    runOn (generate p d overwrite) m = (.error (.parameter cause), m) := by
  unfold generate
  rw [runOn_bind, runOn_checked, h]
  rfl

variable [StoreMachine σ]

/-- A shape whose bytes can be counted does not overflow, whatever there is at a path. -/
theorem runOn_readArray_ne_overflow {shape : ArrayShape} {required : UInt64}
    (h : arrayBytes? shape.1 shape.2 = some required) (path : Path) (m : σ) (shape' : ArrayShape) :
    (runOn (readArray path shape) m).1 ≠ .error (.overflow shape') := by
  -- The file is there and its length is checked, or it is refused; either way the shape has been
  -- counted.
  cases hread : (store m).read path with
  | ok bytes =>
    rw [runOn_readArray hread]
    unfold checkLength
    rw [h]
    show (if bytes.size = required.toNat then _ else _) ≠ _
    split <;> simp
  | error e =>
    unfold readArray
    rw [runOn_bind_of_ok (runOn_read _ _), hread]
    cases e <;> simp

/-- **Which sizes are admitted.** Parameters are valid exactly if their counts are positive and both
arrays together have fewer than 2 ^ 64 bytes. Then the sizes are the products of the counts and
divide back to as many cells, as many numbers are drawn, and a descriptor with these sizes records
the counts as they are, in shapes that require the recorded bytes and that never overflow when an
array is read. Otherwise every generation ends with a fault of its parameters, and the machine is as
it was. -/
theorem sizes_admitted (p : Parameters) :
    (p.validate = .ok () ↔ p.Admissible) ∧
    (p.Admissible → ∃ s, p.sizes = .ok s ∧ p.Counts s ∧
      Content.generate p s = .draw p.seed (p.n * p.d).toNat (p.m * p.d).toNat ∧
      ∀ c : Content, (Descriptor.of p s c).Records p ∧
        ∀ (path : Path) (m : σ) (shape : ArrayShape),
          (runOn (readArray path (Descriptor.of p s c).embeddingsShape) m).1 ≠
            .error (.overflow shape) ∧
          (runOn (readArray path (Descriptor.of p s c).axesShape) m).1 ≠
            .error (.overflow shape)) ∧
    (¬p.Admissible → ∃ cause, p.validate = .error cause ∧
      ∀ (d : Path) (overwrite : Bool) (m : σ),
        runOn (generate p d overwrite) m = (.error (.parameter cause), m)) := by
  refine ⟨Parameters.validate_eq_ok_iff, ?_, ?_⟩
  · intro h
    -- Admissible parameters have sizes, from which all counts follow.
    obtain ⟨s, hs⟩ := h.exists_sizes?
    have hcounts := Parameters.counts_of_sizes? hs
    refine ⟨s, Parameters.sizes_eq_ok_iff.mpr hs, hcounts, ?_, ?_⟩
    · rw [← hcounts.embeddings_cells, ← hcounts.axes_cells]
      rfl
    · intro c
      have hrecords := Parameters.records_of_sizes? hs c
      refine ⟨hrecords, fun path m shape => ⟨?_, ?_⟩⟩
      · exact runOn_readArray_ne_overflow hrecords.embeddings path m shape
      · exact runOn_readArray_ne_overflow hrecords.axes path m shape
  · intro h
    cases hvalid : p.validate with
    | ok u => exact absurd (Parameters.validate_eq_ok_iff.mp hvalid) h
    | error cause => exact ⟨cause, rfl, runOn_generate_of_invalid hvalid⟩

/-- The parameters of a dataset with rows of one number each, and one axis. -/
def column (rows : Int) : Parameters := ⟨rows, 1, 1, 0⟩

/-- The longest column that is admitted, and one row more, with which either part would still fit.
-/
theorem sizes_admitted_up_to_total :
    (column 2305843009213693950).validate = .ok () ∧
    (∃ s, (column 2305843009213693950).sizes = .ok s ∧ s.total.toNat = 18446744073709551608) ∧
    arrayBytes? 2305843009213693951 1 = some 18446744073709551608 ∧ arrayBytes? 1 1 = some 8 ∧
    ∃ cause, (column 2305843009213693951).validate = .error cause ∧
      runOn (generate (column 2305843009213693951) ⟨"data"⟩ true) (Store.ofCurrent []) =
        (.error (.parameter cause), Store.ofCurrent []) := by
  obtain ⟨hvalid, hsizes, -⟩ := sizes_admitted (σ := Store) (column 2305843009213693950)
  obtain ⟨-, -, hrefused⟩ := sizes_admitted (σ := Store) (column 2305843009213693951)
  have hadmissible : (column 2305843009213693950).Admissible := by
    constructor <;> norm_num [column]
  -- One row more adds eight bytes to the total, and that wraps.
  have hover : ¬(column 2305843009213693951).Admissible := by
    rintro ⟨-, -, -, hlt⟩
    norm_num [column] at hlt
  refine ⟨hvalid.mpr hadmissible, ?_, by decide, by decide, ?_⟩
  · obtain ⟨s, hs, hcounts, -⟩ := hsizes hadmissible
    refine ⟨s, hs, ?_⟩
    have htotal := hcounts.total
    norm_num [column] at htotal
    omega
  · obtain ⟨cause, hcause, hrun⟩ := hrefused hover
    exact ⟨cause, hcause, hrun ⟨"data"⟩ true _⟩

end Dataset

end PinnedBench
