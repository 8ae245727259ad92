import PinnedBench.Proofs.Dataset.Pinning

/-!
# What verifying says of a descriptor

A descriptor states the size of each array three times: by its counts, by the shape, and in bytes.
Verifying holds the file of an array against its shape, and the digest against the recorded one. It
reads neither the counts nor the recorded bytes, so that a descriptor in which these have been
edited verifies as before (`Dataset.verified_not_described`).

`Descriptor.Describes` is what one would like to know of a descriptor that verifies, and
`Descriptor.Coherent` is the part of it that no file is needed for. Under a descriptor that verifies
the one is the same as the other (`Dataset.describes_iff_coherent`). A descriptor that has been
generated is coherent (`Dataset.coherent_of_generate`), so as long as it is the one that is loaded,
it describes whatever arrays verify under it. `Dataset.verified_descriptor` puts this together.
-/

namespace PinnedBench

namespace Descriptor

/-- A descriptor that describes stored arrays: the shapes are made of the counts, and the recorded
bytes are the lengths of the arrays. -/
structure Describes (x : Descriptor) (c : Content) : Prop where
  /-- The first array has a row of the dimension for each vector, -/
  embeddings_shape : x.embeddingsShape = (x.n, x.d)
  /-- the second one for each axis. -/
  axes_shape : x.axesShape = (x.m, x.d)
  /-- The recorded bytes of the first array are its length, -/
  embeddings_size : x.sizes.embeddings.toNat = c.embeddings.size
  /-- those of the second one its length, -/
  axes_size : x.sizes.axes.toNat = c.axes.size
  /-- and the total is the length of both. -/
  total_size : x.sizes.total.toNat = c.embeddings.size + c.axes.size

/-- A descriptor that agrees with itself: the shapes are made of the counts, and the recorded bytes
are those of the counts. -/
structure Coherent (x : Descriptor) : Prop where
  /-- The first array has a row of the dimension for each vector, -/
  embeddings_shape : x.embeddingsShape = (x.n, x.d)
  /-- the second one for each axis. -/
  axes_shape : x.axesShape = (x.m, x.d)
  /-- The recorded bytes of the first array are eight for each of its numbers, -/
  embeddings_size : x.sizes.embeddings.toNat = x.n.toNat * x.d.toNat * 8
  /-- those of the second one as well, -/
  axes_size : x.sizes.axes.toNat = x.m.toNat * x.d.toNat * 8
  /-- and the total is their sum. -/
  total_size : x.sizes.total.toNat = x.sizes.embeddings.toNat + x.sizes.axes.toNat

/-- Descriptors that state the same of the files of their arrays: where they are, their shapes and
their digest. -/
structure SameArrays (x y : Descriptor) : Prop where
  /-- They name one digest, -/
  hash : x.hash = y.hash
  /-- the same file for the vectors, -/
  embeddings_file : x.embeddingsFile = y.embeddingsFile
  /-- the same file for the axes, -/
  axes_file : x.axesFile = y.axesFile
  /-- and the same shapes for the one -/
  embeddings_shape : x.embeddingsShape = y.embeddingsShape
  /-- and for the other. -/
  axes_shape : x.axesShape = y.axesShape

/-- A descriptor of sizes that were computed agrees with itself. -/
theorem coherent_of {p : Parameters} {s : Sizes} (h : p.sizes? = some s) (c : Content) :
    (Descriptor.of p s c).Coherent := by
  obtain ⟨hembeddings, haxes⟩ := Parameters.arrayBytes?_of_sizes? h
  exact ⟨rfl, rfl, arrayBytes?_eq_some_iff.mp hembeddings, arrayBytes?_eq_some_iff.mp haxes,
    Parameters.toNat_total h⟩

end Descriptor

namespace Dataset

variable {σ : Type} [Files (StateM σ)] [StoreMachine σ]

/-! ### Lengths and sizes -/

/-- An array with the length of its shape has eight bytes for every cell. -/
theorem HasLength.size {bytes : ByteArray} {shape : ArrayShape} (h : HasLength bytes shape) :
    bytes.size = shape.1.toNat * shape.2.toNat * 8 := by
  obtain ⟨required, hrequired, hsize⟩ := h
  rw [hsize, arrayBytes?_eq_some_iff.mp hrequired]

/-- Arrays with the lengths of their shapes are described exactly by a coherent descriptor. -/
theorem describes_iff_coherent {x : Descriptor} {c : Content}
    (hembeddings : HasLength c.embeddings x.embeddingsShape)
    (haxes : HasLength c.axes x.axesShape) : x.Describes c ↔ x.Coherent := by
  have hesize := hembeddings.size
  have hasize := haxes.size
  constructor
  · -- Shapes are made of counts on both sides, so recorded bytes are lengths exactly if they are
    -- products.
    intro h
    rw [h.embeddings_shape] at hesize
    rw [h.axes_shape] at hasize
    constructor
    · exact h.embeddings_shape
    · exact h.axes_shape
    · rw [h.embeddings_size, hesize]
    · rw [h.axes_size, hasize]
    · rw [h.total_size, h.embeddings_size, h.axes_size]
  · intro h
    rw [h.embeddings_shape] at hesize
    rw [h.axes_shape] at hasize
    have he : x.sizes.embeddings.toNat = c.embeddings.size := h.embeddings_size.trans hesize.symm
    have ha : x.sizes.axes.toNat = c.axes.size := h.axes_size.trans hasize.symm
    constructor
    · exact h.embeddings_shape
    · exact h.axes_shape
    · exact he
    · exact ha
    · rw [h.total_size, he, ha]

theorem coherent_of_generate {p : Parameters} {d : Path} {overwrite : Bool} {x : Descriptor}
    {m m' : σ} (h : runOn (generate p d overwrite) m = (.ok x, m')) : x.Coherent := by
  obtain ⟨s, _, hs, rfl, -⟩ := holds_of_generate h
  exact Descriptor.coherent_of hs _

/-! ### Descriptors that verify -/

/-- A verdict reads nothing but the files, the shapes and the digest. -/
theorem verdict_of_sameArrays {x y : Descriptor} (h : x.SameArrays y) (d : Path) (c : Content) :
    verdict d x c = verdict d y c := by
  unfold verdict
  rw [h.hash, h.embeddings_file, h.axes_file, h.embeddings_shape, h.axes_shape]

/-- **What verifying says of a descriptor.** Where a directory verifies, the descriptor that is
loaded names two arrays that are there: each has eight bytes for every cell of its shape, and their
digest is the recorded one. The shapes, counts and recorded bytes describe the arrays exactly if the
descriptor agrees with itself, and then the counts that a report keeps are those of the arrays.
Every descriptor that some generation has returned does. A descriptor need not, because it verifies
over the same arrays whatever else it records. -/
theorem verified_descriptor {d : Path} {hash : String} {m m' : σ}
    (h : runOn (verify d) m = (.ok hash, m')) :
    ∃ (x : Descriptor) (c : Content), runOn (load (descriptorPath d)) m = (.ok x, m) ∧
      (store m).read (d.join x.embeddingsFile) = .ok c.embeddings ∧
      (store m).read (d.join x.axesFile) = .ok c.axes ∧
      c.embeddings.size = x.embeddingsShape.1.toNat * x.embeddingsShape.2.toNat * 8 ∧
      c.axes.size = x.axesShape.1.toNat * x.axesShape.2.toNat * 8 ∧
      (x.hash = c.hash ∧ hash = x.hash) ∧
      (x.Describes c ↔ x.Coherent) ∧
      (x.Describes c → c.embeddings.size = x.identity.n.toNat * x.identity.d.toNat * 8 ∧
        c.axes.size = x.identity.m.toNat * x.identity.d.toNat * 8) ∧
      (∀ (p : Parameters) (d' : Path) (overwrite : Bool) (n n' : σ),
        runOn (generate p d' overwrite) n = (.ok x, n') → x.Describes c) ∧
      ∀ (y : Descriptor) (n : σ), x.SameArrays y → runOn (load (descriptorPath d)) n = (.ok y, n) →
        (store n).read (d.join y.embeddingsFile) = .ok c.embeddings →
        (store n).read (d.join y.axesFile) = .ok c.axes →
        runOn (verify d) n = (.ok hash, n) := by
  obtain ⟨⟨x, c, hload, hreade, hreada, hverdict⟩, -⟩ := runOn_verify_eq_ok.mp h
  obtain ⟨hembeddings, haxes, hdigest, hhash⟩ := verdict_eq_ok.mp hverdict
  have hiff := describes_iff_coherent hembeddings haxes
  refine ⟨x, c, hload, hreade, hreada, hembeddings.size, haxes.size, ⟨hdigest.symm, hhash⟩, hiff,
    ?_, ?_, ?_⟩
  · -- The shapes are those of the counts, which are what a report keeps.
    intro hdescribes
    have hesize := hembeddings.size
    have hasize := haxes.size
    rw [hdescribes.embeddings_shape] at hesize
    rw [hdescribes.axes_shape] at hasize
    exact ⟨hesize, hasize⟩
  · intro p d' overwrite n n' hgenerate
    exact hiff.mpr (coherent_of_generate hgenerate)
  · intro y n hsame hload' hreade' hreada'
    -- The verdict depends on the arrays and on what is stated of them alone.
    rw [runOn_verify hload' hreade' hreada', ← verdict_of_sameArrays hsame, hverdict]

/-- A dataset that has just been generated verifies, and its descriptor describes its arrays. -/
theorem generated_is_described : ∃ (x : Descriptor) (c : Content) (m' : Store),
    runOn (generate ⟨1, 1, 1, 0⟩ ⟨"data"⟩ false) (Store.ofCurrent []) = (.ok x, m') ∧
      runOn (verify ⟨"data"⟩) m' = (.ok x.hash, m') ∧
      m'.read (Path.join ⟨"data"⟩ x.embeddingsFile) = .ok c.embeddings ∧
      m'.read (Path.join ⟨"data"⟩ x.axesFile) = .ok c.axes ∧ x.Describes c := by
  obtain ⟨x, m', h⟩ := generates_in_empty (store_self (Store.ofCurrent []))
  obtain ⟨s, b, hs, rfl, hholds, -⟩ := holds_of_generate h
  have hload := runOn_load_document hholds.read_descriptor
  have hverify := hholds.runOn_verify.trans (by rw [verdict_generated hs])
  obtain ⟨y, c, hload', hembeddings, haxes, -, -, ⟨-, hhash⟩, -, -, hdescribes, -⟩ :=
    verified_descriptor hverify
  obtain rfl := Except.ok.inj (Prod.mk.inj (hload.symm.trans hload')).1
  exact ⟨_, c, m', h, hhash ▸ hverify, hembeddings, haxes, hdescribes _ _ _ _ _ h⟩

/-- **Verifying does not read the counts**: a descriptor that records seven embeddings verifies over
an array of one. -/
theorem verified_not_described :
    ¬∀ (d : Path) (x : Descriptor) (c : Content) (hash : String) (m : Store),
      runOn (verify d) m = (.ok hash, m) → runOn (load (descriptorPath d)) m = (.ok x, m) →
      m.read (d.join x.embeddingsFile) = .ok c.embeddings →
      m.read (d.join x.axesFile) = .ok c.axes → x.Describes c := by
  intro hclaim
  obtain ⟨x, m, h⟩ := generates_in_empty (store_self (Store.ofCurrent []))
  obtain ⟨s, b, hs, rfl, hholds, -⟩ := holds_of_generate h
  -- Only the count of embeddings is edited, so the arrays and what is stated of them are the same.
  generalize hx : Descriptor.of ⟨1, 1, 1, 0⟩ s (Content.generate ⟨1, 1, 1, 0⟩ s) = x at hholds
  have hhash : ({ x with n := 7 } : Descriptor).hash = x.hash := rfl
  obtain ⟨m', -, hedited⟩ := hholds.put_descriptor hhash
  have hload := runOn_load_document hedited.read_descriptor
  have hsame : x.SameArrays { x with n := 7 } := ⟨rfl, rfl, rfl, rfl, rfl⟩
  subst hx
  have hverify := runOn_verify hload hedited.read_embeddings hedited.read_axes
  rw [← verdict_of_sameArrays hsame, verdict_generated hs] at hverify
  have hdescribes := hclaim _ _ _ _ m' hverify hload hedited.read_embeddings hedited.read_axes
  have hrows : (1 : UInt64) = 7 := congrArg Prod.fst hdescribes.embeddings_shape
  exact absurd hrows (by decide)

end Dataset

end PinnedBench
