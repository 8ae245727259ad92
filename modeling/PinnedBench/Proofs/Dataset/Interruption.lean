import PinnedBench.Proofs.Dataset.Identity
import PinnedBench.Proofs.Dataset.Pinning
import PinnedBench.Proofs.Files.Outages
import PinnedBench.Proofs.Json.Prefixes

/-!
# Generations that are interrupted

A generation may be stopped anywhere in its row of writes, with part of a file written. What is then
in the directory is never taken for a dataset that nobody has generated: if the directory verifies,
and its lock agrees with its descriptor, then the arrays are those of the dataset that was there
before, under its descriptor, or those of the new one, under the new descriptor
(`Dataset.interrupted_keeps_or_replaces`).

The order of the files carries the proof. As long as the descriptor has not been touched, the old
one is loaded, and the arrays that verify under it are the old ones (`eq_of_verdict_eq_ok`). From
the moment on when the descriptor is written, both new arrays are complete; and a descriptor of
which a part is missing is not loaded (`Descriptor.eq_of_torn_document`).
-/

namespace PinnedBench

/-- A part of a document is loaded only as the descriptor of which it is the document. -/
theorem Descriptor.eq_of_torn_document {x y : Descriptor} {n : Nat} {text : String}
    (htext : textOfBytes (x.document.toUTF8.extract 0 n) = .ok text)
    (h : Json.decodeText decode text = .ok y) : y = x := by
  obtain ⟨t, ht, hdecode⟩ := bind_eq_ok.mp h
  obtain ⟨f, hfields, -⟩ := bind_eq_ok.mp hdecode
  have hwhole : text = x.document :=
    Json.eq_of_ofText_prefix (prefix_of_textOfBytes htext) ht
      (Json.Tree.ne_number_of_fields hfields)
  rw [hwhole, decodeText_document] at h
  exact (Except.ok.inj h).symm

namespace Dataset

/-! ### Files that are left -/

/-- What a write to a directory that opens does. -/
theorem eq_put_of_write {s t : Store} {d : Path} {b : Route} {name : String} {content : ByteArray}
    (hname : IsPlainName name) (hb : s.Opens d b) (h : s.write (d.join name) content = .ok t) :
    s.node? (b ++ [name]) ≠ some .directory ∧ t = s.put (b ++ [name]) (.file content) := by
  obtain ⟨r, hr, hd, rfl⟩ := Store.write_eq_ok.mp h
  obtain ⟨-, b', hb', rfl⟩ := (Store.route_join hname).mp hr
  obtain rfl := hb.unique hb'
  exact ⟨hd, rfl⟩

/-- A directory has to open for a file to be written to it. -/
theorem opens_of_write {s t : Store} {d : Path} {name : String} {content : ByteArray}
    (hname : IsPlainName name) (h : s.write (d.join name) content = .ok t) :
    ∃ b, s.Opens d b := by
  obtain ⟨r, hr, -, -⟩ := Store.write_eq_ok.mp h
  obtain ⟨-, b, hb, -⟩ := (Store.route_join hname).mp hr
  exact ⟨b, hb⟩

/-- **Writing files that is interrupted** leaves the first few of them, and possibly a part of the
next one, in the directory. -/
theorem store_of_writeFiles {d : Path} {b : Route} {files : List (String × ByteArray)} {m : Outage}
    (hb : m.store.Opens d b) (hplain : ∀ e ∈ files, IsPlainName e.1) :
    ∃ written, Torn written files ∧ (∀ e ∈ written, m.store.node? (b ++ [e.1]) ≠ some .directory) ∧
      (runOn (writeFiles d files) m).2.store = m.store.putFiles b written := by
  -- The induction is on the files that are still to be written, with the machine left open.
  induction files generalizing m with
  | nil => exact ⟨[], .none _, by simp, rfl⟩
  | cons e rest ih =>
    obtain ⟨name, content⟩ := e
    have hname : IsPlainName name := hplain _ List.mem_cons_self
    rw [writeFiles, runOn_bind]
    rcases Outage.runOn_writeFile_cases (d.join name) content m with
      ⟨m₁, hrun, hwrite⟩ | ⟨fault, m₁, hrun, hleft⟩
    · -- The file is complete, and it keeps the directory, so the others go to the same one.
      obtain ⟨hd, hput⟩ := eq_put_of_write hname hb hwrite
      have hsame : m.store.SameDirectories m₁.store := hput ▸ Store.sameDirectories_put hd
      obtain ⟨written, htorn, hdirectory, hstore⟩ :=
        ih (hsame.opens hb) fun e he => hplain e (List.mem_cons_of_mem _ he)
      rw [hrun]
      refine ⟨(name, content) :: written, .cons _ htorn, ?_, ?_⟩
      · refine List.forall_mem_cons.mpr ⟨hd, fun e he h => ?_⟩
        exact hdirectory e he ((hsame.node?_iff _).mpr h)
      · rw [Store.putFiles, ← hput]
        exact hstore
    · rw [hrun]
      -- The machine stopped before this file or in the middle of it; nothing comes after it in
      -- either case.
      rcases hleft with hsame | ⟨n, hcut⟩
      · exact ⟨[], .none _, by simp, hsame⟩
      · obtain ⟨hd, hput⟩ := eq_put_of_write hname hb hcut
        exact ⟨_, .cut name content n rest, by simpa using hd, hput⟩

/-- Where a directory does not open, writing files to it leaves everything as it was. -/
theorem store_of_writeFiles_of_not_opens {d : Path} {files : List (String × ByteArray)} {m : Outage}
    (hb : ¬∃ b, m.store.Opens d b) (hplain : ∀ e ∈ files, IsPlainName e.1) :
    (runOn (writeFiles d files) m).2.store = m.store := by
  cases files with
  | nil => rfl
  | cons e rest =>
    obtain ⟨name, content⟩ := e
    have hname : IsPlainName name := hplain _ List.mem_cons_self
    rw [writeFiles, runOn_bind]
    rcases Outage.runOn_writeFile_cases (d.join name) content m with
      ⟨m₁, hrun, hwrite⟩ | ⟨fault, m₁, hrun, hleft⟩
    · exact absurd (opens_of_write hname hwrite) hb
    · rw [hrun]
      rcases hleft with hsame | ⟨n, hcut⟩
      · exact hsame
      · exact absurd (opens_of_write hname hcut) hb

/-- The files that a generation of a dataset leaves when it is interrupted after the directory has
been made, `t` being the files at that moment. -/
inductive LeftBy (t : Store) (d : Path) (x : Descriptor) (c : Content) : Store → Prop
  /-- No file has been written. -/
  | made : LeftBy t d x c t
  /-- Files have been written. -/
  | written {b files} : t.Opens d b → Torn files (Dataset.files x c) →
      (∀ e ∈ files, t.node? (b ++ [e.1]) ≠ some .directory) →
      LeftBy t d x c (t.putFiles b files)

/-- A step that does nothing leaves what the one before it has left. -/
theorem runOn_bind_snd {σ ε α β : Type} {y : ExceptT ε (StateM σ) β} (x : ExceptT ε (StateM σ) α)
    (h : ∀ m, (runOn y m).2 = m) (m : σ) : (runOn (x >>= fun _ => y) m).2 = (runOn x m).2 := by
  rw [runOn_bind]
  rcases runOn x m with ⟨e | a, m'⟩
  · rfl
  · exact h m'

/-- Writing the first ones of the four files leaves some of them, wherever it is interrupted. -/
theorem leftBy_of_writeFiles {d : Path} {x : Descriptor} {c : Content}
    {row others : List (String × ByteArray)} (hrow : Dataset.files x c = row ++ others)
    (m : Outage) : LeftBy m.store d x c (runOn (writeFiles d row) m).2.store := by
  have hplain : ∀ e ∈ row, IsPlainName e.1 := fun e he =>
    plain_of_mem_files (x := x) (c := c) (hrow ▸ List.mem_append_left others he)
  -- The files are written if the directory opens, and else nothing is.
  by_cases hb : ∃ b, m.store.Opens d b
  · obtain ⟨b, hb⟩ := hb
    obtain ⟨written, htorn, hdirectory, hstore⟩ := store_of_writeFiles hb hplain
    rw [hstore]
    exact .written hb (hrow ▸ htorn.append others) hdirectory
  · rw [store_of_writeFiles_of_not_opens hb hplain]
    exact .made

/-- **Filling a directory** that is interrupted, or for which there is no room, leaves the first few
of the four files. -/
theorem leftBy_of_fill (p : Parameters) (s : Sizes) (d : Path) (m : Outage) :
    LeftBy m.store d (.of p s (.generate p s)) (.generate p s) (runOn (fill p s d) m).2.store := by
  rcases Nat.lt_or_ge s.embeddings.toNat memoryLimit with hembeddings | hembeddings
  · rcases Nat.lt_or_ge s.axes.toNat memoryLimit with haxes | haxes
    · rw [fill_of_allocatable ⟨hembeddings, haxes⟩, runOn_bind_snd _ fun _ => rfl]
      exact leftBy_of_writeFiles (List.append_nil _).symm m
    · rw [fill_of_axes hembeddings haxes, runOn_bind_snd _ fun _ => rfl]
      exact leftBy_of_writeFiles rfl m
  · rw [fill_of_embeddings hembeddings]
    exact .made

/-- **A generation that is interrupted** leaves the files as they were, or the directory has been
made, and the first few of the four files, possibly with a part of the next one, stand there. -/
theorem leftBy_of_generate (p : Parameters) (d : Path) (overwrite : Bool) (m : Outage) :
    (runOn (generate p d overwrite) m).2.store = m.store ∨
      ∃ s t, p.sizes? = some s ∧ m.store.makeDirectories d = .ok t ∧
        LeftBy t d (.of p s (.generate p s)) (.generate p s)
          (runOn (generate p d overwrite) m).2.store := by
  rw [generate, runOn_bind, runOn_checked]
  cases p.validate with
  -- The parameters are judged before anything is touched.
  | error e => exact .inl rfl
  | ok u =>
    simp only [mapError_ok]
    rw [runOn_bind, runOn_checked]
    cases hs : p.sizes with
    | error e => exact .inl rfl
    | ok s =>
      simp only [mapError_ok]
      rw [runOn_bind_of_ok (Outage.runOn_present _ _)]
      split
      · exact .inl rfl
      · rw [runOn_bind]
        rcases Outage.runOn_makeDirectories_cases d m with
          ⟨m₁, hrun, hmake⟩ | ⟨fault, m₁, hrun, hsame⟩
        · -- The directory is there, so what is left is what filling it has left.
          rw [hrun]
          exact .inr ⟨s, m₁.store, Parameters.sizes_eq_ok hs, hmake, leftBy_of_fill p s d m₁⟩
        · rw [hrun]
          exact .inl hsame

/-! ### Complete datasets -/

/-- A directory is a complete dataset: its descriptor is loaded and names two arrays that are there,
it verifies, and its lock agrees with the descriptor. -/
structure Complete (s : Store) (d : Path) (x : Descriptor) (c : Content) : Prop where
  /-- The descriptor is loaded. -/
  load : runOn (load (descriptorPath d)) s = (.ok x, s)
  /-- The directory verifies. -/
  verify : ∃ hash, runOn (verify d) s = (.ok hash, s)
  /-- The lock agrees with the descriptor. -/
  lock : runOn (verifyLock x d) s = (.ok (), s)
  /-- The embeddings are there. -/
  embeddings : s.read (d.join x.embeddingsFile) = .ok c.embeddings
  /-- The axes are there. -/
  axes : s.read (d.join x.axesFile) = .ok c.axes

/-- The arrays of a complete dataset verify under its descriptor. -/
theorem Complete.verdict_eq_ok {s : Store} {d : Path} {x : Descriptor} {c : Content}
    (h : Complete s d x c) : ∃ hash, verdict d x c = .ok hash := by
  obtain ⟨hash, hverify⟩ := h.verify
  refine ⟨hash, ?_⟩
  rw [runOn_verify (m := s) h.load h.embeddings h.axes] at hverify
  exact (Prod.mk.inj hverify).1

/-- The bytes of the descriptor of a complete dataset. -/
theorem Complete.descriptor {s : Store} {d : Path} {x : Descriptor} {c : Content}
    (h : Complete s d x c) : ∃ bytes text, s.read (descriptorPath d) = .ok bytes ∧
      textOfBytes bytes = .ok text ∧ Json.decodeText Descriptor.decode text = .ok x :=
  (runOn_load_eq_ok.mp h.load).1

/-- **The same descriptor, the same arrays**: where the descriptor of a complete dataset has been
kept and the directory is complete again, it is the same dataset, unless the digest collides. -/
theorem Complete.eq_of_descriptor {s t : Store} {d : Path} {x y : Descriptor} {c c' : Content}
    (h : Complete s d x c) (h' : Complete t d y c')
    (hkept : ∀ bytes, s.read (descriptorPath d) = .ok bytes →
      t.read (descriptorPath d) = .ok bytes)
    (hcollision : Sha256.digest (c'.embeddings ++ c'.axes) =
        Sha256.digest (c.embeddings ++ c.axes) →
      c'.embeddings ++ c'.axes = c.embeddings ++ c.axes) : y = x ∧ c' = c := by
  obtain ⟨bytes, text, hread, htext, hdecode⟩ := h.descriptor
  obtain ⟨bytes', text', hread', htext', hdecode'⟩ := h'.descriptor
  obtain rfl := Except.ok.inj ((hkept bytes hread).symm.trans hread')
  obtain rfl := Except.ok.inj (htext.symm.trans htext')
  obtain rfl := Except.ok.inj (hdecode.symm.trans hdecode')
  -- Both pairs of arrays verify under the one descriptor.
  obtain ⟨hash, hverdict⟩ := h.verdict_eq_ok
  obtain ⟨hash', hverdict'⟩ := h'.verdict_eq_ok
  obtain ⟨e, a⟩ := c
  obtain ⟨e', a'⟩ := c'
  obtain ⟨rfl, rfl⟩ := eq_of_verdict_eq_ok hverdict hverdict' hcollision
  exact ⟨rfl, rfl⟩

/-- A directory has no descriptor, and will have none when it has been made. -/
def Vacant (s : Store) (d : Path) : Prop :=
  ∀ t, s.makeDirectories d = .ok t → t.present (descriptorPath d) = false

/-! ### What stands in the directory -/

/-- A file that is read is the one that stands in the directory. -/
theorem eq_of_read {s : Store} {d : Path} {b : Route} {name : String} {content bytes : ByteArray}
    (hname : IsPlainName name) (hb : s.Opens d b)
    (hnode : s.node? (b ++ [name]) = some (.file content)) (h : s.read (d.join name) = .ok bytes) :
    bytes = content := by
  obtain ⟨r, hr, hfile⟩ := Store.read_eq_ok.mp h
  obtain ⟨-, b', hb', rfl⟩ := (Store.route_join hname).mp hr
  obtain rfl := hb.unique hb'
  rw [hnode] at hfile
  exact (Node.file.inj (Option.some.inj hfile)).symm

/-- Files of other names do not change what is read. -/
theorem read_of_same {s t : Store} {d : Path} {b : Route} {name : String} {bytes : ByteArray}
    (hname : IsPlainName name) (hsame : s.SameDirectories t) (hb : s.Opens d b)
    (hnode : t.node? (b ++ [name]) = s.node? (b ++ [name]))
    (h : s.read (d.join name) = .ok bytes) : t.read (d.join name) = .ok bytes := by
  obtain ⟨r, hr, hfile⟩ := Store.read_eq_ok.mp h
  obtain ⟨-, b', hb', rfl⟩ := (Store.route_join hname).mp hr
  obtain rfl := hb.unique hb'
  exact Store.read_eq_ok.mpr ⟨_, hsame.route hr, hnode.trans hfile⟩

/-- Either the descriptor has not been touched, or both arrays are complete and a part of the
descriptor, or all of it, is there. -/
theorem torn_files {x : Descriptor} {c : Content} {written : List (String × ByteArray)}
    (h : Torn written (files x c)) :
    (∀ e ∈ written, e.1 ≠ descriptorName) ∨
      (Descriptor.embeddingsName, c.embeddings) ∈ written ∧
        (Descriptor.axesName, c.axes) ∈ written ∧
        ∃ n, (descriptorName, x.document.toUTF8.extract 0 n) ∈ written := by
  have hembeddings : Descriptor.embeddingsName ≠ descriptorName := by decide
  have haxes : Descriptor.axesName ≠ descriptorName := by decide
  -- Where the row has been broken off: at the embeddings, the axes, the descriptor, or the lock.
  cases h with
  | none => exact .inl (by simp)
  | cut => exact .inl (by simpa using hembeddings)
  | cons _ h =>
    cases h with
    | none => exact .inl (by simpa using hembeddings)
    | cut => exact .inl (by simpa using ⟨hembeddings, haxes⟩)
    | cons _ h =>
      cases h with
      | none => exact .inl (by simpa using ⟨hembeddings, haxes⟩)
      | cut _ _ n => exact .inr ⟨by simp, by simp, n, by simp⟩
      | cons _ h =>
        refine .inr ⟨by simp, by simp, x.document.toUTF8.size, ?_⟩
        rw [ByteArray.extract_zero_size]
        simp

/-! ### Never a mixture -/

/-- **An interrupted generation keeps the old dataset or has the new one.** Let a directory have no
descriptor, or be a complete dataset, and let a generation of any dataset be stopped there at any
point, any part of the file under way having been written. If the directory is a complete dataset
then, it is one that was complete before, with the same descriptor and the same arrays, or it is the
new one, with the arrays drawn for it. The digest must not collide on the arrays before and after.
-/
theorem interrupted_keeps_or_replaces {p : Parameters} {d : Path} {overwrite : Bool} {m : Outage}
    {y : Descriptor} {c : Content}
    (hstart : Vacant m.store d ∨ ∃ x c₀, Complete m.store d x c₀)
    (hend : Complete (runOn (generate p d overwrite) m).2.store d y c)
    (hcollision : ∀ x c₀, Complete m.store d x c₀ →
      Sha256.digest (c.embeddings ++ c.axes) = Sha256.digest (c₀.embeddings ++ c₀.axes) →
      c.embeddings ++ c.axes = c₀.embeddings ++ c₀.axes) :
    Complete m.store d y c ∨ ∃ s, p.sizes? = some s ∧
      y = Descriptor.of p s (Content.generate p s) ∧ c = Content.generate p s := by
  rcases leftBy_of_generate p d overwrite m with hsame | ⟨s, t, hs, hmake, hleft⟩
  · exact .inl (hsame ▸ hend)
  have hadds := Store.addsDirectories_makeDirectories hmake
  generalize (runOn (generate p d overwrite) m).2.store = u at hleft hend
  -- Where the descriptor has been kept, nothing was complete but what was complete before.
  have hkeep : (∀ bytes, t.read (descriptorPath d) = .ok bytes ↔
      u.read (descriptorPath d) = .ok bytes) → Complete m.store d y c := by
    intro hkept
    rcases hstart with hvacant | ⟨x, c₀, hstart⟩
    · obtain ⟨bytes, -, hread, -⟩ := hend.descriptor
      have hthere := present_of_read ((hkept bytes).mpr hread)
      rw [hvacant t hmake] at hthere
      simp at hthere
    · obtain ⟨rfl, rfl⟩ := hstart.eq_of_descriptor hend
        (fun bytes hread => (hkept bytes).mp (hadds.read hread)) (hcollision x c₀ hstart)
      exact hstart
  cases hleft with
  | made => exact .inl (hkeep fun _ => Iff.rfl)
  | @written b written hb htorn hdirectory =>
    have hsame := Store.sameDirectories_putFiles hdirectory
    rcases torn_files htorn with hother | ⟨hembeddings, haxes, n, hdescriptor⟩
    · left
      have hnode : (t.putFiles b written).node? (b ++ [descriptorName]) =
          t.node? (b ++ [descriptorName]) :=
        Store.node?_putFiles_of_ne fun e he heq => hother e he (by simpa using heq.symm)
      exact hkeep fun bytes => ⟨read_of_same plain_descriptorName hsame hb hnode,
        read_of_same plain_descriptorName hsame.symm (hsame.opens hb) hnode.symm⟩
    · right
      have hnames : (written.map (·.1)).Nodup := nodup_fileNames.sublist htorn.map_fst_sublist
      have hb' := hsame.opens hb
      -- The descriptor that is loaded is the new one, so it names the arrays that are complete.
      obtain ⟨bytes, text, hread, htext, hdecode⟩ := hend.descriptor
      obtain rfl := eq_of_read plain_descriptorName hb'
        (Store.node?_putFiles_of_mem hnames hdescriptor) hread
      obtain rfl := Descriptor.eq_of_torn_document htext hdecode
      have he := eq_of_read plain_embeddingsName hb'
        (Store.node?_putFiles_of_mem hnames hembeddings) hend.embeddings
      have ha := eq_of_read plain_axesName hb'
        (Store.node?_putFiles_of_mem hnames haxes) hend.axes
      cases c
      cases he
      cases ha
      exact ⟨s, hs, rfl, rfl⟩

/-! ### Machines that go down on the way -/

/-- A machine that can write more files than there are writes them all, and as many fewer are left
to it. -/
theorem runOn_writeFiles_of_supply {d : Path} {files : List (String × ByteArray)} {s t : Store}
    (h : runOn (writeFiles d files) s = (.ok (), t)) (k : Nat) (cut : Option Nat) :
    runOn (writeFiles d files) (Outage.mk s (some (k + files.length)) cut) =
      (.ok (), Outage.mk t (some k) cut) := by
  induction files generalizing s with
  | nil =>
    obtain ⟨-, rfl⟩ := Prod.mk.inj h
    rfl
  | cons e rest ih =>
    rw [writeFiles] at h ⊢
    obtain ⟨⟨⟩, s₁, hwrite, hrest⟩ := runOn_bind_eq_ok.mp h
    exact (runOn_bind_of_ok (Outage.runOn_writeFile_of_supply hwrite _ cut)).trans (ih hrest)

/-- A generation that nothing keeps from it makes the directory and writes the four files. -/
theorem runOn_generate_of_valid {p : Parameters} {s : Sizes} (hvalid : p.validate = .ok ())
    (hs : p.sizes = .ok s) (hroom : s.Allocatable) (d : Path) (m : Outage) :
    runOn (generate p d true) m =
      runOn (makeDirectories d >>= fun _ =>
        writeFiles d (files (.of p s (.generate p s)) (.generate p s)) >>= fun _ =>
          pure (.of p s (.generate p s))) m := by
  rw [generate, runOn_bind_of_ok (runOn_checked_eq_ok.mpr ⟨hvalid, rfl⟩),
    runOn_bind_of_ok (runOn_checked_eq_ok.mpr ⟨hs, rfl⟩),
    runOn_bind_of_ok (Outage.runOn_present _ _), if_neg (by simp), fill_of_allocatable hroom]

/-- Where the machine goes down before it has written some of the files, the ones before stand. -/
theorem store_of_stopped {p : Parameters} {z : Sizes} {d : Path} {s t : Store}
    {row rest : List (String × ByteArray)} {e : String × ByteArray} {k : Nat}
    (hvalid : p.validate = .ok ()) (hz : p.sizes = .ok z) (hroom : z.Allocatable)
    (hmake : s.makeDirectories d = .ok s)
    (hfiles : files (.of p z (.generate p z)) (.generate p z) = row ++ e :: rest)
    (hrow : runOn (writeFiles d row) s = (.ok (), t)) (hk : row.length = k) :
    (runOn (generate p d true) (Outage.mk s (some (k + 1)) none)).2.store = t := by
  have hthere : runOn (makeDirectories d) s = (.ok (), s) :=
    runOn_makeDirectories_eq_ok.mpr ⟨s, hmake, rfl⟩
  have hwritten := runOn_writeFiles_of_supply hrow 0 none
  rw [Nat.zero_add, hk] at hwritten
  rw [runOn_generate_of_valid hvalid hz hroom,
    runOn_bind_of_ok (Outage.runOn_makeDirectories_of_supply hthere k none), hfiles,
    writeFiles_append, bind_assoc, runOn_bind_of_ok hwritten]
  -- The next file is the one that is under way.
  rfl

/-- A directory that holds a dataset whose arrays verify is complete. -/
theorem Holds.complete {s : Store} {d : Path} {b : Route} {p : Parameters} {z : Sizes}
    (h : Holds s d b (.of p z (.generate p z)) (.generate p z)) (hz : p.sizes? = some z) :
    Complete s d (.of p z (.generate p z)) (.generate p z) := by
  refine ⟨runOn_load_document h.read_descriptor, ⟨(Content.generate p z).hash, ?_⟩, ?_,
    h.read_embeddings, h.read_axes⟩
  · rw [h.runOn_verify (m := s), verdict_generated hz]
  · exact runOn_verifyLock_eq_ok.mpr ⟨lockHolds_of_read h.read_lock, rfl⟩

/-- The arrays of `tall`. -/
def tallContent : Content := .generate tall ⟨16, 8, 24⟩

/-- The arrays of `wide`: the same numbers, cut in another place. -/
def wideContent : Content := .generate wide ⟨8, 16, 24⟩

/-- The descriptor of `tall`. -/
def tallDescriptor : Descriptor := .of tall ⟨16, 8, 24⟩ tallContent

/-- The descriptor of `wide`, which records the same digest. -/
def wideDescriptor : Descriptor := .of wide ⟨8, 16, 24⟩ wideContent

/-- The store in which `tall` has been generated. -/
def tallStore : Store := filled tallDescriptor tallContent

/-- The store in which `tall` has been generated holds it. -/
theorem holds_tall : Holds tallStore ⟨"data"⟩ ["data"] tallDescriptor tallContent := by
  obtain ⟨m', h, hstore⟩ := generates_in_empty_of_valid (p := tall) (s := ⟨16, 8, 24⟩)
    (store_self (Store.ofCurrent [])) (by decide) (by decide) (by decide)
  obtain ⟨s, b, hs, -, hholds, -⟩ := holds_of_generate h
  have hsizes : tall.sizes? = some ⟨16, 8, 24⟩ := by decide
  obtain rfl := Option.some.inj (hsizes.symm.trans hs)
  rw [hstore] at hholds
  have hopens : tallStore.Opens ⟨"data"⟩ ["data"] := ⟨rfl, rfl⟩
  exact hholds.opens.unique hopens ▸ hholds

/-- The arrays differ although their bytes are the same in a row: the embeddings are not equally
long. -/
theorem tallContent_ne_wideContent : tallContent ≠ wideContent := by
  intro heq
  have hsize := congrArg (fun c => c.embeddings.size) heq
  rw [tallContent, wideContent, Content.size_embeddings (by decide),
    Content.size_embeddings (by decide)] at hsize
  simp at hsize

/-- The digest does not collide on what `tallStore` and a later store hold: it is one dataset, or
the same bytes are cut in another place. -/
theorem no_collision {c c₀ : Content} {x : Descriptor} (h : Complete tallStore ⟨"data"⟩ x c₀)
    (hc : c.stream = tallContent.stream) : c.embeddings ++ c.axes = c₀.embeddings ++ c₀.axes := by
  have hload := runOn_load_document (m := tallStore) holds_tall.read_descriptor
  obtain rfl := Except.ok.inj (Prod.mk.inj (h.load.symm.trans hload)).1
  have he := Except.ok.inj (h.embeddings.symm.trans holds_tall.read_embeddings)
  have ha := Except.ok.inj (h.axes.symm.trans holds_tall.read_axes)
  rw [he, ha]
  exact hc

/-- A dataset is being replaced by another one when the machine goes down. Before the first file has
been written, the old dataset is there, and it is the one that was complete before. When nothing but
the lock is missing, the new one is there: its digest is the one that the old lock pins. -/
theorem tall_is_kept_or_replaced : ∃ early late : Outage,
    early.store = tallStore ∧ late.store = tallStore ∧
      (Complete (runOn (generate wide ⟨"data"⟩ true) early).2.store ⟨"data"⟩ tallDescriptor
          tallContent ∧
        Complete early.store ⟨"data"⟩ tallDescriptor tallContent) ∧
      Complete (runOn (generate wide ⟨"data"⟩ true) late).2.store ⟨"data"⟩ wideDescriptor
          wideContent ∧
        ∃ s, wide.sizes? = some s ∧ wideDescriptor = .of wide s (.generate wide s) ∧
          wideContent = .generate wide s := by
  have hold : Complete tallStore ⟨"data"⟩ tallDescriptor tallContent :=
    holds_tall.complete (by decide)
  have hmake : tallStore.makeDirectories ⟨"data"⟩ = .ok tallStore := rfl
  have hnone : runOn (writeFiles ⟨"data"⟩ []) tallStore = (.ok (), tallStore) := rfl
  have hearly := store_of_stopped (p := wide) (z := ⟨8, 16, 24⟩) (by decide) (by decide) (by decide)
    hmake rfl hnone rfl
  have hhash : wideDescriptor.hash = tallDescriptor.hash :=
    congrArg Sha256.hex stream_tall_eq_wide.symm
  -- The lock that stands there already is the one that is not written any more.
  have hnames : ∀ e ∈ (files wideDescriptor wideContent).take 3, e.1 ∈ fileNames := by
    simp [files, fileNames]
  have hfiles : ∀ e ∈ files wideDescriptor wideContent,
      e ∈ (files wideDescriptor wideContent).take 3 ∨
        e ∈ files tallDescriptor tallContent ∧
          ∀ a ∈ (files wideDescriptor wideContent).take 3, e.1 ≠ a.1 := by
    simp [files, hhash, descriptorName, lockName, Descriptor.embeddingsName, Descriptor.axesName]
  obtain ⟨t, hwritten, hholds⟩ := holds_tall.put_files (m := tallStore) hnames (by decide) hfiles
  have hlate := store_of_stopped (p := wide) (z := ⟨8, 16, 24⟩) (k := 3) (by decide) (by decide)
    (by decide) hmake rfl hwritten rfl
  have hend : Complete tallStore ⟨"data"⟩ tallDescriptor tallContent := hold
  have hend' : Complete t ⟨"data"⟩ wideDescriptor wideContent := hholds.complete (by decide)
  rw [← hearly] at hend
  rw [← hlate] at hend'
  refine ⟨_, _, rfl, rfl, ⟨hend, ?_⟩, hend', ?_⟩
  · have hkept := interrupted_keeps_or_replaces (.inr ⟨_, _, hold⟩) hend
      fun x c₀ h _ => no_collision h rfl
    refine hkept.resolve_right ?_
    rintro ⟨s, hs, -, hc⟩
    have hsizes : wide.sizes? = some ⟨8, 16, 24⟩ := by decide
    obtain rfl := Option.some.inj (hsizes.symm.trans hs)
    exact tallContent_ne_wideContent hc
  · have hsame : wideContent.stream = tallContent.stream := stream_tall_eq_wide.symm
    have hreplaced := interrupted_keeps_or_replaces (.inr ⟨_, _, hold⟩) hend'
      fun x c₀ h _ => no_collision h hsame
    refine hreplaced.resolve_left ?_
    intro h
    -- The old descriptor is another one than the one that is loaded now.
    have hload := (Prod.mk.inj (h.load.symm.trans hold.load)).1
    have hn : wideDescriptor.n = tallDescriptor.n := congrArg (·.n) (Except.ok.inj hload)
    exact absurd hn (by decide)

end Dataset

end PinnedBench
