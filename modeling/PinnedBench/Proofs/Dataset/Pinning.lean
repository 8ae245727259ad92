import PinnedBench.Proofs.Dataset.Verification

/-!
# What the pin of a dataset guarantees

A generated directory agrees with itself: the descriptor that is loaded is the one that was written,
the arrays verify under it, and the lock pins its digest (`Dataset.generate_agrees`). This holds on
every machine that keeps its files in a store and whatever was in the directory before.

The pin also detects every change to the arrays (`Dataset.verify_replaced`). The digest alone would
not do, because it covers the two arrays without a mark between them, so that bytes may move from
one to the other. The lengths that the shapes require fix where the one ends and the other begins
(`Dataset.eq_of_verdict_eq_ok`).
-/

namespace PinnedBench

namespace Dataset

variable {σ : Type} [Files (StateM σ)] [StoreMachine σ]

/-! ### Agreement -/

/-- The arrays that are drawn for a descriptor verify under it. -/
theorem verdict_generated {p : Parameters} {s : Sizes} (hs : p.sizes? = some s) (d : Path) :
    verdict d (Descriptor.of p s (Content.generate p s)) (Content.generate p s) =
      .ok (Content.generate p s).hash := by
  obtain ⟨hembeddings, haxes⟩ := Parameters.arrayBytes?_of_sizes? hs
  exact verdict_eq_ok.mpr ⟨⟨s.embeddings, hembeddings, Content.size_embeddings hs⟩,
    ⟨s.axes, haxes, Content.size_axes hs⟩, rfl, rfl⟩

/-- Verifying a directory that holds a dataset judges the arrays that it holds. -/
theorem Holds.runOn_verify {p : Parameters} {s : Sizes} {c c' : Content} {d : Path} {b : Route}
    {m : σ} (h : Holds (store m) d b (Descriptor.of p s c) c') :
    runOn (verify d) m = (verdict d (Descriptor.of p s c) c', m) :=
  Dataset.runOn_verify (runOn_load_document h.read_descriptor) h.read_embeddings h.read_axes

/-- A lock that has been written holds the digest that was written. -/
theorem lockHolds_of_read {s : Store} {d : Path} {bytes : ByteArray}
    (h : s.read (lockPath d) = .ok (Sha256.hex bytes).toUTF8) :
    LockHolds s d (Sha256.hex bytes) :=
  ⟨_, _, h, textOfBytes_toUTF8 _, Sha256.trimText_hex _⟩

/-- **Generating agrees with verifying.** After a dataset has been generated, whatever stood in the
directory before: the directory verifies with the recorded digest, the descriptor is loaded as it
was returned, the lock holds the digest and agrees with the descriptor, both arrays take up the
recorded bytes, and no file at any other route has come, gone or changed. -/
theorem generate_agrees {p : Parameters} {d : Path} {overwrite : Bool} {x : Descriptor} {m m' : σ}
    (h : runOn (generate p d overwrite) m = (.ok x, m')) :
    runOn (verify d) m' = (.ok x.hash, m') ∧
      runOn (load (descriptorPath d)) m' = (.ok x, m') ∧
      runOn (verifyLock x d) m' = (.ok (), m') ∧
      (store m').read (lockPath d) = .ok x.hash.toUTF8 ∧
      (∃ embeddings, (store m').read (d.join Descriptor.embeddingsName) = .ok embeddings ∧
        embeddings.size = x.sizes.embeddings.toNat) ∧
      (∃ axes, (store m').read (d.join Descriptor.axesName) = .ok axes ∧
        axes.size = x.sizes.axes.toNat) ∧
      ∀ r, (∀ name ∈ fileNames, (store m').route (d.join name) ≠ .ok r) → ∀ c,
        (store m').node? r = some (.file c) ↔ (store m).node? r = some (.file c) := by
  -- All that is said follows from what a directory holds after the generation.
  obtain ⟨s, b, hs, rfl, hholds, hother⟩ := holds_of_generate h
  have hlock := lockHolds_of_read hholds.read_lock
  refine ⟨?_, runOn_load_document hholds.read_descriptor,
    runOn_verifyLock_eq_ok.mpr ⟨hlock, rfl⟩, hholds.read_lock,
    ⟨_, hholds.read_embeddings, Content.size_embeddings hs⟩,
    ⟨_, hholds.read_axes, Content.size_axes hs⟩, fun r hr => hother r fun name hname heq => ?_⟩
  · rw [hholds.runOn_verify, verdict_generated hs]
    rfl
  · exact hr name hname (heq ▸ hholds.route_eq hname)

/-- A store in which a directory of four files is all there is. -/
def filled (x : Descriptor) (c : Content) : Store :=
  Store.putFiles ⟨[], [(["data"], .directory)]⟩ ["data"] (files x c)

/-- A dataset with valid parameters is generated in a directory of an empty store, if there is room
for its arrays. -/
theorem generates_in_empty_of_valid {p : Parameters} {s : Sizes} {m : σ}
    (hm : store m = Store.ofCurrent []) (hvalid : p.validate = .ok ()) (hs : p.sizes = .ok s)
    (hroom : s.Allocatable) :
    ∃ m', runOn (generate p ⟨"data"⟩ false) m =
        (.ok (Descriptor.of p s (Content.generate p s)), m') ∧
      store m' = filled (.of p s (.generate p s)) (.generate p s) := by
  have hnames : ∀ name ∈ fileNames, ((⟨"data"⟩ : Path).join name).Acceptable := by decide
  -- The obligations that are left: the directory is made, and none of the four files is in the way.
  refine ⟨_, runOn_generate_eq_ok.mpr ⟨s, ⟨[], [(["data"], .directory)]⟩, ["data"],
    hvalid, hs, hroom, ?_, rfl, ?_, ⟨rfl, rfl⟩, fun e he => ⟨?_, ?_⟩, rfl⟩,
    StoreMachine.store_withStore _ _⟩
  · rw [hm]
    decide
  · rw [hm]
    rfl
  · exact hnames e.1 (map_fst_files _ _ ▸ List.mem_map_of_mem he)
  · simp [Store.node?, List.lookup_cons]

/-- A dataset is generated in a directory of an empty store. -/
theorem generates_in_empty {m : σ} (hm : store m = Store.ofCurrent []) :
    ∃ x m', runOn (generate ⟨1, 1, 1, 0⟩ ⟨"data"⟩ false) m = (.ok x, m') := by
  obtain ⟨m', h, -⟩ := generates_in_empty_of_valid (p := ⟨1, 1, 1, 0⟩) (s := ⟨8, 8, 16⟩) hm
    (by decide) (by decide) (by decide)
  exact ⟨_, m', h⟩

/-- The smallest dataset, generated in an empty store, agrees with itself. -/
theorem generated_in_empty_agrees : ∃ (x : Descriptor) (m' : Store),
    runOn (generate ⟨1, 1, 1, 0⟩ ⟨"data"⟩ false) (Store.ofCurrent []) = (.ok x, m') ∧
      runOn (verify ⟨"data"⟩) m' = (.ok x.hash, m') ∧
      runOn (verifyLock x ⟨"data"⟩) m' = (.ok (), m') := by
  obtain ⟨x, m', h⟩ := generates_in_empty (store_self (Store.ofCurrent []))
  obtain ⟨hverify, -, hlock, -⟩ := generate_agrees h
  exact ⟨x, m', h, hverify, hlock⟩

/-! ### Detection of changes -/

/-- Arrays that take up the same bytes as two others, one behind the other, are these arrays. -/
theorem eq_of_append_eq {e a e' a' : ByteArray} (h : e' ++ a' = e ++ a) (hsize : e'.size = e.size) :
    e' = e ∧ a' = a := by
  obtain rfl := ByteArray.append_inj_left h hsize
  exact ⟨rfl, ByteArray.append_right_inj e' |>.mp h⟩

theorem HasLength.size_eq {bytes bytes' : ByteArray} {shape : ArrayShape}
    (h : HasLength bytes shape) (h' : HasLength bytes' shape) : bytes'.size = bytes.size := by
  obtain ⟨required, hrequired, hsize⟩ := h
  obtain ⟨required', hrequired', hsize'⟩ := h'
  obtain rfl := Option.some.inj (hrequired.symm.trans hrequired')
  exact hsize'.trans hsize.symm

/-- **Arrays that verify under one descriptor** are the same, unless the digest collides on them:
the shape fixes the length of the first one, so no byte can have moved from one to the other. -/
theorem eq_of_verdict_eq_ok {d : Path} {x : Descriptor} {e a e' a' : ByteArray}
    {hash hash' : String}
    (h : verdict d x ⟨e, a⟩ = .ok hash) (h' : verdict d x ⟨e', a'⟩ = .ok hash')
    (hcollision : Sha256.digest (e' ++ a') = Sha256.digest (e ++ a) → e' ++ a' = e ++ a) :
    e' = e ∧ a' = a := by
  obtain ⟨hlength, -, hhash, -⟩ := verdict_eq_ok.mp h
  obtain ⟨hlength', -, hhash', -⟩ := verdict_eq_ok.mp h'
  -- Both digests are the recorded one, so the arrays take up the same bytes.
  exact eq_of_append_eq (hcollision (Sha256.hex_eq_iff.mp (hhash'.trans hhash.symm)))
    (hlength.size_eq hlength')

/-- The store `t` has arrays in the place of those of `s`, and the same descriptor. -/
structure ReplacesArrays (s t : Store) (d : Path) (e a : ByteArray) : Prop where
  /-- The file of the embeddings. -/
  embeddings : t.read (d.join Descriptor.embeddingsName) = .ok e
  /-- The file of the axes. -/
  axes : t.read (d.join Descriptor.axesName) = .ok a
  /-- The descriptor is the same. -/
  descriptor : t.read (descriptorPath d) = s.read (descriptorPath d)

/-- **Every change to the arrays is detected.** Let `e` and `a` be the arrays of a generated
directory and `e'` and `a'` any bytes on which the digest does not collide with them. They can be
written in place of the arrays; and in every store that has them there, and the same descriptor, the
directory verifies exactly when nothing has changed. Otherwise a flaw is found, and no digest is
given. -/
theorem verify_replaced {p : Parameters} {d : Path} {overwrite : Bool} {x : Descriptor} {m m' : σ}
    {e a e' a' : ByteArray} (h : runOn (generate p d overwrite) m = (.ok x, m'))
    (he : (store m').read (d.join Descriptor.embeddingsName) = .ok e)
    (ha : (store m').read (d.join Descriptor.axesName) = .ok a)
    (hcollision : Sha256.digest (e' ++ a') = Sha256.digest (e ++ a) → e' ++ a' = e ++ a) :
    (∃ t, runOn (writeFiles d [(Descriptor.embeddingsName, e'), (Descriptor.axesName, a')]) m' =
        (.ok (), t) ∧ ReplacesArrays (store m') (store t) d e' a') ∧
      ∀ t : σ, ReplacesArrays (store m') (store t) d e' a' →
        ((∃ hash, runOn (verify d) t = (.ok hash, t)) ↔ e' = e ∧ a' = a) ∧
          (¬(e' = e ∧ a' = a) → ∃ flaw, runOn (verify d) t = (.error flaw, t)) := by
  obtain ⟨s, b, hs, rfl, hholds, -⟩ := holds_of_generate h
  obtain rfl := Except.ok.inj (hholds.read_embeddings.symm.trans he)
  obtain rfl := Except.ok.inj (hholds.read_axes.symm.trans ha)
  have hpinned := verdict_generated hs d
  constructor
  · -- The bytes can be written, because they replace files that stand there.
    obtain ⟨t, ht, hholds'⟩ := hholds.put_arrays ⟨e', a'⟩
    exact ⟨t, ht, hholds'.read_embeddings, hholds'.read_axes,
      hholds'.read_descriptor.trans hholds.read_descriptor.symm⟩
  · intro t ht
    have hload := runOn_load_document (ht.descriptor.trans hholds.read_descriptor)
    -- The arrays are judged under the descriptor that was generated for the old ones.
    have hverify := runOn_verify (c := ⟨e', a'⟩) hload ht.embeddings ht.axes
    rw [hverify]
    cases hverdict : verdict d (Descriptor.of p s (Content.generate p s)) ⟨e', a'⟩ with
    | ok hash =>
      have heq := eq_of_verdict_eq_ok hpinned hverdict hcollision
      exact ⟨⟨fun _ => heq, fun _ => ⟨hash, rfl⟩⟩, fun hne => absurd heq hne⟩
    | error flaw =>
      refine ⟨⟨fun ⟨hash, hok⟩ => by simp at hok, ?_⟩, fun _ => ⟨flaw, rfl⟩⟩
      rintro ⟨rfl, rfl⟩
      exact absurd (hverdict.symm.trans hpinned) (by simp)

/-- All bytes are moved to the embeddings: the digest stays the same, and a flaw is found. -/
theorem moved_arrays_do_not_verify : ∃ (x : Descriptor) (m' t : Store) (e a : ByteArray),
    runOn (generate ⟨1, 1, 1, 0⟩ ⟨"data"⟩ false) (Store.ofCurrent []) = (.ok x, m') ∧
      ReplacesArrays m' t ⟨"data"⟩ (e ++ a) .empty ∧
      Content.hash ⟨e ++ a, .empty⟩ = Content.hash ⟨e, a⟩ ∧
      ∃ flaw, runOn (verify ⟨"data"⟩) t = (.error flaw, t) := by
  obtain ⟨x, m', h⟩ := generates_in_empty (store_self (Store.ofCurrent []))
  obtain ⟨s, b, hs, -, hholds, -⟩ := holds_of_generate h
  have hsizes : Parameters.sizes? ⟨1, 1, 1, 0⟩ = some ⟨8, 8, 16⟩ := by decide
  obtain rfl := Option.some.inj (hsizes.symm.trans hs)
  -- The arrays are eight bytes each; which ones does not matter.
  generalize hc : Content.generate ⟨1, 1, 1, 0⟩ ⟨8, 8, 16⟩ = c at hholds
  have happend : (c.embeddings ++ c.axes) ++ ByteArray.empty = c.embeddings ++ c.axes :=
    ByteArray.append_empty
  obtain ⟨⟨t, -, ht⟩, hdetect⟩ :=
    verify_replaced h hholds.read_embeddings hholds.read_axes (fun _ => happend)
  refine ⟨x, m', t, c.embeddings, c.axes, h, ht, congrArg Sha256.hex happend,
    (hdetect t ht).2 ?_⟩
  rintro ⟨-, haxes⟩
  have hsize : c.axes.size = 8 := hc ▸ Content.size_axes hs
  rw [← haxes] at hsize
  exact absurd hsize (by decide)

end Dataset

end PinnedBench
