import PinnedBench.Proofs.Dataset.Pinning
import PinnedBench.Proofs.Random.Draws

/-!
# What the digest of a dataset identifies

The numbers of a dataset are one row of draws from its seed. The shapes only say where the row is
cut into embeddings and axes, and the digest covers the row without the cut
(`Content.stream_generate`).

So the recorded digests of two datasets are the same exactly when their arrays, one behind the
other, are the same bytes (`Dataset.hash_identifies_stream`). This tells apart any two datasets
whose embeddings take up equally many bytes. It does not tell apart two that cut one row in
different places: with the same seed, two shapes that need equally many numbers share their digest,
and the lock of one agrees with the descriptor of the other (`Dataset.cut_not_identified`).
-/

namespace PinnedBench

/-- Numbers are stored one behind the other, so a row that is cut is stored as its two parts. -/
theorem storedBytes_append (xs ys : List Double) :
    storedBytes (xs ++ ys) = storedBytes xs ++ storedBytes ys := by
  apply ByteArray.ext
  rw [ByteArray.data_append]
  simp [storedBytes]

/-! ### The bytes that a digest covers -/

namespace Content

/-- The bytes that the digest of stored arrays covers. -/
def stream (c : Content) : ByteArray := c.embeddings ++ c.axes

/-- Contents whose embeddings are equally long are the same when their streams are. -/
theorem eq_of_stream_eq {c c' : Content} (h : c.stream = c'.stream)
    (hsize : c.embeddings.size = c'.embeddings.size) : c = c' := by
  obtain ⟨e, a⟩ := c
  obtain ⟨e', a'⟩ := c'
  obtain ⟨rfl, rfl⟩ := Dataset.eq_of_append_eq h hsize
  rfl

/-- The embeddings are drawn first and the axes with the state that is left: together they are one
row of draws. -/
theorem stream_draw (seed : UInt64) (n k : Nat) :
    (draw seed n k).stream = storedBytes (draws Generator.normal (n + k) (.ofSeed seed)).1 := by
  rw [draws_add, storedBytes_append]
  rfl

variable {p q : Parameters} {s t : Sizes}

/-- **The stream of a generated dataset** depends on its seed and on how many numbers it has in all,
not on its shapes. -/
theorem stream_generate (h : p.sizes? = some s) :
    (generate p s).stream =
      storedBytes (draws Generator.normal (s.total.toNat / 8) (.ofSeed p.seed)).1 := by
  obtain ⟨hembeddings, haxes⟩ := Parameters.arrayBytes?_of_sizes? h
  have hcells : cellCount s.embeddings + cellCount s.axes = s.total.toNat / 8 := by
    -- Both sizes are multiples of eight, so no half number is lost when each is divided.
    have he := cells_mul hembeddings
    have ha := cells_mul haxes
    have htotal := Parameters.toNat_total h
    omega
  rw [generate, stream_draw, hcells]

theorem size_stream (h : p.sizes? = some s) : (generate p s).stream.size = s.total.toNat := by
  rw [stream, ByteArray.size_append, size_embeddings h, size_axes h, Parameters.toNat_total h]

/-- With one seed, equally many numbers make the same stream. -/
theorem stream_eq_iff_total_eq (hs : p.sizes? = some s) (ht : q.sizes? = some t)
    (hseed : p.seed = q.seed) :
    (generate p s).stream = (generate q t).stream ↔ s.total = t.total := by
  constructor
  · intro h
    have hsize := congrArg ByteArray.size h
    rw [size_stream hs, size_stream ht] at hsize
    exact UInt64.toNat_inj.mp hsize
  · intro h
    rw [stream_generate hs, stream_generate ht, h, hseed]

end Content

namespace Dataset

variable {σ τ : Type} [Files (StateM σ)] [StoreMachine σ] [Files (StateM τ)] [StoreMachine τ]

/-! ### Locks of other datasets -/

/-- What comes of holding a descriptor against a lock, whichever digest the lock holds. -/
theorem runOn_verifyLock_of_lockHolds {x : Descriptor} {d : Path} {lock : String} {m : σ}
    (h : LockHolds (store m) d lock) :
    runOn (verifyLock x d) m =
      (if x.hash = lock then .ok () else .error (.integrity x.hash lock), m) := by
  rw [verifyLock, runOn_bind_of_ok (runOn_readLock_eq_ok.mpr ⟨h, rfl⟩), checkLock]
  by_cases heq : x.hash = lock
  · rw [if_pos heq, if_pos (beq_iff_eq.mpr heq)]
    rfl
  · rw [if_neg heq, if_neg (by simpa using heq)]
    rfl

/-- A dataset has been generated in a directory, and `c` are the arrays that stand there. -/
structure Generated (p : Parameters) (d : Path) (x : Descriptor) (c : Content) (m m' : σ) :
    Prop where
  /-- The generation has succeeded. -/
  run : ∃ overwrite, runOn (generate p d overwrite) m = (.ok x, m')
  /-- The file of the embeddings. -/
  embeddings : (store m').read (d.join Descriptor.embeddingsName) = .ok c.embeddings
  /-- The file of the axes. -/
  axes : (store m').read (d.join Descriptor.axesName) = .ok c.axes

/-- What comes with a generated dataset: its arrays are the ones drawn for its sizes, and its lock
holds their digest. -/
theorem Generated.content {p : Parameters} {d : Path} {x : Descriptor} {c : Content} {m m' : σ}
    (h : Generated p d x c m m') :
    ∃ s, p.sizes? = some s ∧ c = Content.generate p s ∧ x = Descriptor.of p s c ∧
      (store m').read (lockPath d) = .ok (Sha256.hex c.stream).toUTF8 := by
  obtain ⟨overwrite, hrun⟩ := h.run
  obtain ⟨s, b, hs, rfl, hholds, -⟩ := holds_of_generate hrun
  have he := Except.ok.inj (hholds.read_embeddings.symm.trans h.embeddings)
  have ha := Except.ok.inj (hholds.read_axes.symm.trans h.axes)
  -- The arrays were read from the files, and the files hold what was drawn.
  have hc : c = Content.generate p s := by
    cases c
    cases he
    cases ha
    rfl
  subst hc
  exact ⟨s, hs, rfl, rfl, hholds.read_lock⟩

/-- Valid parameters generate a dataset in an empty store, if there is room for its arrays. -/
theorem generated_in_empty {p : Parameters} {s : Sizes} (hvalid : p.validate = .ok ())
    (hs : p.sizes = .ok s) (hroom : s.Allocatable) :
    ∃ m', Generated p ⟨"data"⟩ (.of p s (.generate p s)) (.generate p s) (Store.ofCurrent [])
      m' := by
  obtain ⟨m', h, -⟩ := generates_in_empty_of_valid (store_self (Store.ofCurrent [])) hvalid hs hroom
  obtain ⟨s', b, hs', -, hholds, -⟩ := holds_of_generate h
  obtain rfl := Option.some.inj ((Parameters.sizes_eq_ok hs).symm.trans hs')
  exact ⟨m', ⟨false, h⟩, hholds.read_embeddings, hholds.read_axes⟩

/-! ### What is identified -/

/-- **The digest identifies the stream** of a dataset. Let two datasets be generated, on machines of
any kind, so that the digest does not collide on their streams. Their descriptors record the same
digest exactly when the streams are the same bytes. So datasets that differ and whose embeddings (or
whose axes) are equally long have different digests, and with one seed the digest is the same
exactly when as many bytes are recorded in all. Wherever the lock of the second one stands, the
descriptor of the first one agrees with it exactly when the streams are the same, and is refused
with both digests otherwise. -/
theorem hash_identifies_stream {p q : Parameters} {d d' : Path} {x y : Descriptor} {c c' : Content}
    {m m' : σ} {n n' : τ} (h : Generated p d x c m m') (h' : Generated q d' y c' n n')
    (hcollision : Sha256.digest c.stream = Sha256.digest c'.stream → c.stream = c'.stream) :
    (x.hash = y.hash ↔ c.stream = c'.stream) ∧
      (c.embeddings.size = c'.embeddings.size ∨ c.axes.size = c'.axes.size → c ≠ c' →
        x.hash ≠ y.hash) ∧
      (p.seed = q.seed → (x.hash = y.hash ↔ x.sizes.total = y.sizes.total)) ∧
      ∀ (t : τ) (dir : Path), (store t).read (lockPath dir) = (store n').read (lockPath d') →
        (c.stream = c'.stream → runOn (verifyLock x dir) t = (.ok (), t)) ∧
          (c.stream ≠ c'.stream →
            runOn (verifyLock x dir) t = (.error (.integrity x.hash y.hash), t)) := by
  obtain ⟨s, hs, rfl, rfl, -⟩ := h.content
  obtain ⟨t, ht, rfl, rfl, hlock⟩ := h'.content
  -- Digests are compared as texts, and different digests have different texts; so only the streams
  -- count.
  have hiff : (Descriptor.of p s (.generate p s)).hash = (Descriptor.of q t (.generate q t)).hash ↔
      (Content.generate p s).stream = (Content.generate q t).stream := by
    constructor
    · exact fun heq => hcollision (Sha256.hex_eq_iff.mp heq)
    · exact fun heq => congrArg Sha256.hex heq
  refine ⟨hiff, ?_, fun hseed => hiff.trans (Content.stream_eq_iff_total_eq hs ht hseed), ?_⟩
  · intro hsize hne heq
    have hstream := hiff.mp heq
    refine hne (Content.eq_of_stream_eq hstream ?_)
    -- Streams that are the same are equally long, so either half fixes the cut.
    have htotal := congrArg ByteArray.size hstream
    rw [Content.stream, Content.stream, ByteArray.size_append, ByteArray.size_append] at htotal
    omega
  · intro w dir hread
    have hholds : LockHolds (store w) dir (Descriptor.of q t (.generate q t)).hash :=
      lockHolds_of_read (hread.trans hlock)
    rw [runOn_verifyLock_of_lockHolds hholds]
    constructor
    · intro heq
      rw [if_pos (hiff.mpr heq)]
    · intro hne
      rw [if_neg fun heq => hne (hiff.mp heq)]

/-- The parameters of a dataset with two embeddings and one axis. -/
def tall : Parameters := ⟨2, 1, 1, 0⟩

/-- The parameters of a dataset with one embedding and two axes. -/
def wide : Parameters := ⟨1, 2, 1, 0⟩

/-- The same three numbers, cut in different places. -/
theorem stream_tall_eq_wide :
    (Content.generate tall ⟨16, 8, 24⟩).stream = (Content.generate wide ⟨8, 16, 24⟩).stream :=
  (Content.stream_eq_iff_total_eq (by decide) (by decide) (by rfl)).mpr rfl

/-- The lock of the one agrees with the descriptor of the other. -/
theorem lock_of_wide_agrees_with_tall : ∃ (x y : Descriptor) (c c' : Content) (m' n' : Store),
    Generated tall ⟨"data"⟩ x c (Store.ofCurrent []) m' ∧
      Generated wide ⟨"data"⟩ y c' (Store.ofCurrent []) n' ∧ x.hash = y.hash ∧
      runOn (verifyLock x ⟨"data"⟩) n' = (.ok (), n') := by
  obtain ⟨m', htall⟩ := generated_in_empty (p := tall) (s := ⟨16, 8, 24⟩)
    (by decide) (by decide) (by decide)
  obtain ⟨n', hwide⟩ := generated_in_empty (p := wide) (s := ⟨8, 16, 24⟩)
    (by decide) (by decide) (by decide)
  obtain ⟨hiff, -, -, hlock⟩ :=
    hash_identifies_stream htall hwide fun _ => stream_tall_eq_wide
  exact ⟨_, _, _, _, m', n', htall, hwide, hiff.mpr stream_tall_eq_wide,
    (hlock n' ⟨"data"⟩ rfl).1 stream_tall_eq_wide⟩

/-- **The cut is not identified**: datasets whose arrays differ may record one digest. -/
theorem cut_not_identified : ¬∀ (p q : Parameters) (d d' : Path) (x y : Descriptor)
    (c c' : Content) (m m' n n' : Store), Generated p d x c m m' → Generated q d' y c' n n' →
      (Sha256.digest c.stream = Sha256.digest c'.stream → c.stream = c'.stream) → c ≠ c' →
      x.hash ≠ y.hash ∧ runOn (verifyLock x d') n' ≠ (.ok (), n') := by
  intro hall
  obtain ⟨m', htall⟩ := generated_in_empty (p := tall) (s := ⟨16, 8, 24⟩)
    (by decide) (by decide) (by decide)
  obtain ⟨n', hwide⟩ := generated_in_empty (p := wide) (s := ⟨8, 16, 24⟩)
    (by decide) (by decide) (by decide)
  -- The embeddings are not equally long, so the arrays differ although their streams do not.
  have hne : Content.generate tall ⟨16, 8, 24⟩ ≠ Content.generate wide ⟨8, 16, 24⟩ := by
    intro heq
    have hsize := congrArg (fun c => c.embeddings.size) heq
    rw [Content.size_embeddings (by decide), Content.size_embeddings (by decide)] at hsize
    simp at hsize
  obtain ⟨hhash, -⟩ :=
    hall _ _ _ _ _ _ _ _ _ _ _ _ htall hwide (fun _ => stream_tall_eq_wide) hne
  exact hhash (congrArg Sha256.hex stream_tall_eq_wide)

end Dataset

end PinnedBench
