import PinnedBench.Proofs.Dataset.Generation
import PinnedBench.Proofs.Digest.Hexadecimal

/-!
# Verifying a dataset

What the checks of a dataset say, as statements about its files:

* `runOn_load_eq_ok` — a descriptor is loaded when its file holds a text that decodes to it, and a
  descriptor that has been written is loaded unchanged (`runOn_load_document`);
* `verdict_eq_ok` — a directory whose two arrays are there is accepted when they have the lengths of
  the recorded shapes and together the recorded digest; `runOn_verify_eq_ok` adds how they are
  found;
* `runOn_verifyLock_eq_ok` — a directory is pinned when its lock holds the recorded digest
  (`LockHolds`).

None of these checks changes the machine.
-/

namespace PinnedBench

namespace Dataset

variable {σ : Type} [Files (StateM σ)] [StoreMachine σ]

/-! ### Loading -/

/-- **A descriptor is loaded** when there is a text that decodes to it. -/
theorem runOn_load_eq_ok {path : Path} {x : Descriptor} {m m' : σ} :
    runOn (load path) m = (.ok x, m') ↔
      (∃ bytes text, (store m).read path = .ok bytes ∧ textOfBytes bytes = .ok text ∧
        Json.decodeText Descriptor.decode text = .ok x) ∧ m' = m :=
  runOn_readText_checked_eq_ok

theorem runOn_load_document {path : Path} {x : Descriptor} {m : σ}
    (h : (store m).read path = .ok x.document.toUTF8) : runOn (load path) m = (.ok x, m) :=
  runOn_load_eq_ok.mpr
    ⟨⟨_, x.document, h, textOfBytes_toUTF8 _, x.decodeText_document⟩, rfl⟩

/-! ### Arrays -/

/-- An array that has been read, held against its shape. -/
def checkLength (path : Path) (shape : ArrayShape) (bytes : ByteArray) : Except Flaw ByteArray :=
  match arrayBytes? shape.1 shape.2 with
  | none => .error (.overflow shape)
  | some required =>
    if bytes.size = required.toNat then .ok bytes
    else .error (.length path.text bytes.size shape required.toNat)

/-- Reading an array that is there. -/
theorem runOn_readArray {path : Path} {shape : ArrayShape} {bytes : ByteArray} {m : σ}
    (h : (store m).read path = .ok bytes) :
    runOn (readArray path shape) m = (checkLength path shape bytes, m) := by
  rw [readArray, runOn_bind_of_ok (runOn_read _ _), h, checkLength]
  simp only
  cases arrayBytes? shape.1 shape.2 with
  | none => rfl
  | some required =>
    simp only
    split <;> rfl

/-- An array has the length that its shape requires. -/
def HasLength (bytes : ByteArray) (shape : ArrayShape) : Prop :=
  ∃ required, arrayBytes? shape.1 shape.2 = some required ∧ bytes.size = required.toNat

/-- An array that passes has the length of its shape, and comes back unchanged. -/
theorem checkLength_eq_ok {path : Path} {shape : ArrayShape} {bytes bytes' : ByteArray} :
    checkLength path shape bytes = .ok bytes' ↔ HasLength bytes shape ∧ bytes' = bytes := by
  rw [checkLength, HasLength]
  cases arrayBytes? shape.1 shape.2 with
  | none => simp
  | some required =>
    by_cases hsize : bytes.size = required.toNat
    · simp [hsize, eq_comm]
    · simp [hsize]

/-- An array is read when its file is there with the length that the shape requires. -/
theorem runOn_readArray_eq_ok {path : Path} {shape : ArrayShape} {bytes : ByteArray} {m m' : σ} :
    runOn (readArray path shape) m = (.ok bytes, m') ↔
      (store m).read path = .ok bytes ∧ HasLength bytes shape ∧ m' = m := by
  cases h : (store m).read path with
  | ok bytes' =>
    rw [runOn_readArray h, Prod.mk.injEq, checkLength_eq_ok, Except.ok.injEq]
    constructor
    · rintro ⟨⟨hsize, rfl⟩, rfl⟩
      exact ⟨rfl, hsize, rfl⟩
    · rintro ⟨rfl, hsize, rfl⟩
      exact ⟨⟨hsize, rfl⟩, rfl⟩
  -- Whatever the file system says about a file that cannot be read, no array comes of it.
  | error e =>
    rw [readArray, runOn_bind_of_ok (runOn_read _ _), h]
    cases e <;> simp

/-! ### Verifying -/

theorem present_of_read {s : Store} {p : Path} {bytes : ByteArray} (h : s.read p = .ok bytes) :
    s.present p = true := by
  obtain ⟨r, hr, hnode⟩ := Store.read_eq_ok.mp h
  rw [Store.present, hr]
  simp [hnode]

/-- What is said about arrays that have been found under a descriptor. -/
def verdict (d : Path) (x : Descriptor) (c : Content) : Except Flaw String := do
  let _ ← checkLength (d.join x.embeddingsFile) x.embeddingsShape c.embeddings
  let _ ← checkLength (d.join x.axesFile) x.axesShape c.axes
  if c.hash = x.hash then .ok c.hash else .error (.digest x.hash c.hash)

/-- Verifying a directory in which the arrays are there. -/
theorem runOn_verify {d : Path} {x : Descriptor} {c : Content} {m : σ}
    (hload : runOn (load (descriptorPath d)) m = (.ok x, m))
    (hembeddings : (store m).read (d.join x.embeddingsFile) = .ok c.embeddings)
    (haxes : (store m).read (d.join x.axesFile) = .ok c.axes) :
    runOn (verify d) m = (verdict d x c, m) := by
  obtain ⟨⟨bytes, text, hread, -⟩, -⟩ := runOn_load_eq_ok.mp hload
  rw [verify, runOn_bind_of_ok (runOn_present _ _), present_of_read hread]
  change runOn (ExceptT.adapt Flaw.descriptor (load (descriptorPath d)) >>= _) m = _
  rw [runOn_bind_of_ok (runOn_adapt_eq_ok.mpr hload), runOn_bind, runOn_readArray hembeddings,
    verdict]
  cases hfirst : checkLength (d.join x.embeddingsFile) x.embeddingsShape c.embeddings with
  | error flaw => rfl
  | ok embeddings =>
    -- The first array is in order, and the second one is judged.
    obtain ⟨-, rfl⟩ := checkLength_eq_ok.mp hfirst
    -- Both sides go on with the second array alone.
    simp only [bind, Except.bind]
    change runOn (readArray (d.join x.axesFile) x.axesShape >>= _) m = _
    rw [runOn_bind, runOn_readArray haxes]
    cases hsecond : checkLength (d.join x.axesFile) x.axesShape c.axes with
    | error flaw => rfl
    | ok axes =>
      obtain ⟨-, rfl⟩ := checkLength_eq_ok.mp hsecond
      simp only
      split <;> rfl

/-- **What verifies**: both arrays have the lengths of their shapes, and their digest is the
recorded one. -/
theorem verdict_eq_ok {d : Path} {x : Descriptor} {c : Content} {hash : String} :
    verdict d x c = .ok hash ↔
      HasLength c.embeddings x.embeddingsShape ∧ HasLength c.axes x.axesShape ∧
        c.hash = x.hash ∧ hash = x.hash := by
  rw [verdict]
  constructor
  · intro h
    obtain ⟨_, hfirst, h⟩ := bind_eq_ok.mp h
    obtain ⟨_, hsecond, h⟩ := bind_eq_ok.mp h
    split at h
    next heq =>
      have hhash := Except.ok.inj h
      exact ⟨(checkLength_eq_ok.mp hfirst).1, (checkLength_eq_ok.mp hsecond).1, heq,
        hhash.symm.trans heq⟩
    next => simp at h
  · rintro ⟨hembeddings, haxes, hhash, rfl⟩
    refine bind_eq_ok.mpr ⟨_, checkLength_eq_ok.mpr ⟨hembeddings, rfl⟩, ?_⟩
    refine bind_eq_ok.mpr ⟨_, checkLength_eq_ok.mpr ⟨haxes, rfl⟩, ?_⟩
    rw [if_pos hhash, hhash]

/-- **A directory verifies** exactly when its descriptor is loaded, the two arrays that the
descriptor names are there with the lengths of their shapes, and their digest is the recorded
one. -/
theorem runOn_verify_eq_ok {d : Path} {hash : String} {m m' : σ} :
    runOn (verify d) m = (.ok hash, m') ↔
      (∃ x c, runOn (load (descriptorPath d)) m = (.ok x, m) ∧
        (store m).read (d.join x.embeddingsFile) = .ok c.embeddings ∧
        (store m).read (d.join x.axesFile) = .ok c.axes ∧ verdict d x c = .ok hash) ∧ m' = m := by
  constructor
  · intro h
    have hsteps := h
    rw [verify, runOn_bind_of_ok (runOn_present _ _)] at hsteps
    split at hsteps
    next => simp at hsteps
    next =>
      obtain ⟨x, m₁, hadapt, h₁⟩ := runOn_bind_eq_ok.mp hsteps
      have hload := runOn_adapt_eq_ok.mp hadapt
      obtain ⟨-, rfl⟩ := runOn_load_eq_ok.mp hload
      obtain ⟨embeddings, m₂, hfirst, h₂⟩ := runOn_bind_eq_ok.mp h₁
      obtain ⟨hembeddings, -, rfl⟩ := runOn_readArray_eq_ok.mp hfirst
      obtain ⟨axes, m₃, hsecond, -⟩ := runOn_bind_eq_ok.mp h₂
      obtain ⟨haxes, -, rfl⟩ := runOn_readArray_eq_ok.mp hsecond
      -- The arrays are there, so the outcome is the verdict on them.
      have hverify := runOn_verify (c := ⟨embeddings, axes⟩) hload hembeddings haxes
      obtain ⟨hverdict, hm⟩ := Prod.mk.inj (hverify.symm.trans h)
      exact ⟨⟨x, ⟨embeddings, axes⟩, hload, hembeddings, haxes, hverdict⟩, hm.symm⟩
  · rintro ⟨⟨x, c, hload, hembeddings, haxes, hverdict⟩, rfl⟩
    rw [runOn_verify hload hembeddings haxes, hverdict]

/-! ### Locks -/

/-- The lock of a directory holds a digest: it is a text file, and without the blanks around it its
text is the digest. -/
def LockHolds (s : Store) (d : Path) (hash : String) : Prop :=
  ∃ bytes text, s.read (lockPath d) = .ok bytes ∧ textOfBytes bytes = .ok text ∧
    trimText text = hash

/-- Reading a lock gives the digest that it holds. -/
theorem runOn_readLock_eq_ok {d : Path} {lock : String} {m m' : σ} :
    runOn (readLock d) m = (.ok lock, m') ↔ LockHolds (store m) d lock ∧ m' = m := by
  rw [readLock, runOn_bind_eq_ok]
  constructor
  · rintro ⟨text, m₁, htext, h₁⟩
    obtain ⟨⟨bytes, hread, hbytes⟩, rfl⟩ := runOn_readText_eq_ok.mp htext
    obtain ⟨hlock, rfl⟩ := Prod.mk.inj h₁
    exact ⟨⟨bytes, text, hread, hbytes, Except.ok.inj hlock⟩, rfl⟩
  · rintro ⟨⟨bytes, text, hread, hbytes, rfl⟩, rfl⟩
    exact ⟨text, m', runOn_readText_eq_ok.mpr ⟨⟨bytes, hread, hbytes⟩, rfl⟩, rfl⟩

/-- **A lock agrees** with a descriptor when it holds the recorded digest. -/
theorem runOn_verifyLock_eq_ok {x : Descriptor} {d : Path} {m m' : σ} :
    runOn (verifyLock x d) m = (.ok (), m') ↔ LockHolds (store m) d x.hash ∧ m' = m := by
  rw [verifyLock, ← runOn_readLock_eq_ok]
  constructor
  · intro h
    obtain ⟨lock, m₁, hlock, h₁⟩ := runOn_bind_eq_ok.mp h
    split at h₁
    next heq =>
      obtain ⟨-, rfl⟩ := Prod.mk.inj h₁
      rwa [beq_iff_eq.mp heq]
    next => simp at h₁
  · intro h
    rw [runOn_bind_of_ok h, checkLock, if_pos (beq_self_eq_true _)]
    rfl

/-- Holding a descriptor against the lock changes nothing, whatever comes of it. -/
theorem runOn_verifyLock_snd (x : Descriptor) (d : Path) (m : σ) :
    (runOn (verifyLock x d) m).2 = m := by
  rw [verifyLock, readLock, runOn_bind, runOn_bind, runOn_readText]
  -- The lock is not read, or it is read and compared.
  cases ((store m).read (lockPath d) >>= textOfBytes) with
  | error e => rfl
  | ok text =>
    change (runOn (if checkLock x (trimText text) then pure () else _) m).2 = m
    split <;> rfl

end Dataset

end PinnedBench
