import PinnedBench.Dataset.Directory
import PinnedBench.Proofs.Dataset.Descriptors
import PinnedBench.Proofs.Dataset.Sizes
import PinnedBench.Proofs.Files.Changes

/-!
# Generating a dataset

`Dataset.runOn_generate_eq_ok` says exactly when a dataset is generated and what the machine is like
afterwards: the directories are made, and then the four files are put.

What later commands rely on is `Dataset.Holds`: the directory opens, and the four files stand in it.
Generating leaves a directory that holds the dataset (`Dataset.holds_of_generate`), and so does
writing some of its files anew (`Dataset.Holds.put_files`), such as other arrays or another
descriptor.
-/

namespace PinnedBench

namespace Dataset

variable {σ : Type} [Files (StateM σ)] [StoreMachine σ]

/-! ### The names of the files -/

/-- The name of the descriptor's file is plain, so it is a file of the directory itself and of no
other one. -/
theorem plain_descriptorName : IsPlainName descriptorName := by decide

theorem plain_lockName : IsPlainName lockName := by decide

theorem plain_embeddingsName : IsPlainName Descriptor.embeddingsName := by decide

theorem plain_axesName : IsPlainName Descriptor.axesName := by decide

/-- The names of the four files. -/
def fileNames : List String :=
  [Descriptor.embeddingsName, Descriptor.axesName, descriptorName, lockName]

/-- Whichever dataset is written, its files have the same names. -/
theorem map_fst_files (x : Descriptor) (c : Content) : (files x c).map (·.1) = fileNames := rfl

theorem plain_of_mem_fileNames : ∀ name ∈ fileNames, IsPlainName name := by
  rw [fileNames]
  simp only [List.forall_mem_cons]
  exact ⟨plain_embeddingsName, plain_axesName, plain_descriptorName, plain_lockName, by simp⟩

/-- The files of a dataset have plain names; it is in this form that writing them asks for it. -/
theorem plain_of_mem_files {x : Descriptor} {c : Content} {e : String × ByteArray}
    (he : e ∈ files x c) : IsPlainName e.1 :=
  plain_of_mem_fileNames e.1 (map_fst_files x c ▸ List.mem_map_of_mem he)

/-- Every dataset has a file under each of the names. -/
theorem exists_mem_files {name : String} (x : Descriptor) (c : Content) (hname : name ∈ fileNames) :
    ∃ e ∈ files x c, e.1 = name := by
  rw [← map_fst_files x c] at hname
  exact List.mem_map.mp hname

/-- No two files share a name, so none overwrites another one. -/
theorem nodup_fileNames : fileNames.Nodup := by decide

/-! ### Writing files -/

/-- Files of a directory can be written: the file system takes their paths, and no directory is in
their way. -/
def CanWrite (s : Store) (d : Path) (b : Route) (files : List (String × ByteArray)) : Prop :=
  ∀ e ∈ files, (d.join e.1).Acceptable ∧ s.node? (b ++ [e.1]) ≠ some .directory

/-- **Writing files** of a directory that opens puts them in their places. -/
theorem runOn_writeFiles_eq_ok {d : Path} {b : Route} {files : List (String × ByteArray)} {m m' : σ}
    (hb : (store m).Opens d b) (hplain : ∀ e ∈ files, IsPlainName e.1) :
    runOn (writeFiles d files) m = (.ok (), m') ↔
      CanWrite (store m) d b files ∧ m' = withStore m ((store m).putFiles b files) := by
  -- The induction is on the files, with the machine left open: each one is written to the machine
  -- that the one before has left.
  induction files generalizing m with
  | nil =>
    rw [writeFiles, runOn_pure, Prod.mk.injEq, Store.putFiles, StoreMachine.withStore_store]
    simp [CanWrite, eq_comm]
  | cons e rest ih =>
    obtain ⟨name, c⟩ := e
    have hname := hplain _ List.mem_cons_self
    rw [writeFiles, runOn_bind_eq_ok, CanWrite, List.forall_mem_cons]
    constructor
    · rintro ⟨⟨⟩, m₁, hwrite, hrest⟩
      obtain ⟨s, hs, rfl⟩ := runOn_writeFile_eq_ok.mp hwrite
      obtain ⟨r, hr, hd, rfl⟩ := Store.write_eq_ok.mp hs
      obtain ⟨ha, b', hb', rfl⟩ := (Store.route_join hname).mp hr
      obtain rfl := hb.unique hb'
      -- The first file keeps the directories, so the others are written to the same one.
      have hput := Store.sameDirectories_put (c := c) hd
      rw [ih (by simpa using hput.opens hb)
        fun e he => hplain e (List.mem_cons_of_mem _ he)] at hrest
      obtain ⟨hcan, rfl⟩ := hrest
      refine ⟨⟨⟨ha, hd⟩, fun e he => ?_⟩, ?_⟩
      · have := hcan e he
        rw [StoreMachine.store_withStore] at this
        exact ⟨this.1, fun h => this.2 ((hput.node?_iff _).mpr h)⟩
      · rw [StoreMachine.withStore_withStore, StoreMachine.store_withStore, Store.putFiles]
    -- Where all files can be written, the others still can when the first one is there.
    · rintro ⟨⟨⟨ha, hd⟩, hcan⟩, rfl⟩
      have hput := Store.sameDirectories_put (c := c) hd
      refine ⟨(), withStore m ((store m).put (b ++ [name]) (.file c)), ?_, ?_⟩
      · refine runOn_writeFile_eq_ok.mpr ⟨_, Store.write_eq_ok.mpr ⟨b ++ [name], ?_, hd, rfl⟩, rfl⟩
        exact (Store.route_join hname).mpr ⟨ha, b, hb, rfl⟩
      · rw [ih (by simpa using hput.opens hb) fun e he => hplain e (List.mem_cons_of_mem _ he)]
        refine ⟨fun e he => ⟨(hcan e he).1, fun h => (hcan e he).2 ?_⟩, ?_⟩
        · rw [StoreMachine.store_withStore] at h
          exact (hput.node?_iff _).mp h
        · rw [StoreMachine.withStore_withStore, StoreMachine.store_withStore, Store.putFiles]

/-- A directory has to open for a file to be written to it. -/
theorem opens_of_runOn_writeFiles {d : Path} {e : String × ByteArray}
    {rest : List (String × ByteArray)} {m m' : σ} (hplain : IsPlainName e.1)
    (h : runOn (writeFiles d (e :: rest)) m = (.ok (), m')) : ∃ b, (store m).Opens d b := by
  obtain ⟨name, c⟩ := e
  rw [writeFiles, runOn_bind_eq_ok] at h
  obtain ⟨⟨⟩, m₁, hwrite, -⟩ := h
  obtain ⟨s, hs, -⟩ := runOn_writeFile_eq_ok.mp hwrite
  obtain ⟨r, hr, -⟩ := Store.write_eq_ok.mp hs
  obtain ⟨-, b, hb, -⟩ := (Store.route_join hplain).mp hr
  exact ⟨b, hb⟩

/-! ### Drawing the arrays -/

section Drawing

variable {σ : Type} {p : Parameters} {s : Sizes}

/-- An array for which there is room is drawn, and the store is not touched. -/
theorem drawStored_of_lt {bytes : UInt64} (h : bytes.toNat < memoryLimit) (g : Generator) :
    (drawStored bytes g : ExceptT Fault (StateM σ) (ByteArray × Generator)) =
      pure (drawArray (cellCount bytes) g) := by
  rw [drawStored, allocate_of_lt h]
  rfl

/-- An array for which there is no room is not drawn. -/
theorem drawStored_of_le {bytes : UInt64} (h : memoryLimit ≤ bytes.toNat) (g : Generator) :
    (drawStored bytes g : ExceptT Fault (StateM σ) (ByteArray × Generator)) =
      throw (.parameter (.unallocatable bytes)) := by
  rw [drawStored, allocate_of_le h]
  rfl

variable [Files (StateM σ)]

/-- Files are written one after the other, so a row of them may be cut anywhere. -/
theorem writeFiles_append (d : Path) (files others : List (String × ByteArray)) :
    (writeFiles d (files ++ others) : ExceptT Fault (StateM σ) Unit) =
      writeFiles d files >>= fun _ => writeFiles d others := by
  -- Errors end the row by themselves, so the two rows need not be told apart by what comes of the
  -- first.
  induction files with
  | nil => rfl
  | cons e files ih =>
    rw [List.cons_append, writeFiles, writeFiles, ih, bind_assoc]

/-- **Filling a directory** with arrays for which there is room is writing the four files. -/
theorem fill_of_allocatable (h : s.Allocatable) (d : Path) :
    (fill p s d : ExceptT Fault (StateM σ) Descriptor) =
      writeFiles d (files (.of p s (.generate p s)) (.generate p s)) >>= fun _ =>
        pure (.of p s (.generate p s)) := by
  -- The embeddings are written before the axes are drawn, so the row of files is cut behind the
  -- first one.
  have hcut : files (.of p s (.generate p s)) (.generate p s) =
      [(Descriptor.embeddingsName, (Content.generate p s).embeddings)] ++
        (files (.of p s (.generate p s)) (.generate p s)).tail := rfl
  rw [fill, drawStored_of_lt h.embeddings, pure_bind, hcut, writeFiles_append, bind_assoc]
  simp only [drawStored_of_lt h.axes, pure_bind]
  rfl

/-- Without room for the embeddings no file is written. -/
theorem fill_of_embeddings (h : memoryLimit ≤ s.embeddings.toNat) (d : Path) :
    (fill p s d : ExceptT Fault (StateM σ) Descriptor) =
      throw (.parameter (.unallocatable s.embeddings)) := by
  rw [fill, drawStored_of_le h]
  rfl

/-- Without room for the axes the embeddings are written, and nothing else. -/
theorem fill_of_axes (h : s.embeddings.toNat < memoryLimit) (h' : memoryLimit ≤ s.axes.toNat)
    (d : Path) :
    (fill p s d : ExceptT Fault (StateM σ) Descriptor) =
      writeFiles d [(Descriptor.embeddingsName, (Content.generate p s).embeddings)] >>= fun _ =>
        throw (.parameter (.unallocatable s.axes)) := by
  rw [fill, drawStored_of_lt h, pure_bind]
  simp only [drawStored_of_le h']
  rfl

/-- A directory is filled only where there is room for both arrays. -/
theorem allocatable_of_fill {d : Path} {x : Descriptor} {m m' : σ}
    (h : runOn (fill p s d) m = (.ok x, m')) : s.Allocatable := by
  -- The contrapositive, array by array: without room, filling throws.
  rcases Nat.lt_or_ge s.embeddings.toNat memoryLimit with hembeddings | hembeddings
  · rcases Nat.lt_or_ge s.axes.toNat memoryLimit with haxes | haxes
    · exact ⟨hembeddings, haxes⟩
    · rw [fill_of_axes hembeddings haxes] at h
      obtain ⟨⟨⟩, m₁, -, hthrow⟩ := runOn_bind_eq_ok.mp h
      simp at hthrow
  · rw [fill_of_embeddings hembeddings] at h
    simp at h

end Drawing

/-! ### Generating -/

/-- Making a directory and writing files to it. -/
theorem runOn_makeDirectories_writeFiles_eq_ok {d : Path} {e : String × ByteArray}
    {rest : List (String × ByteArray)} {m m' : σ} (hplain : ∀ e' ∈ e :: rest, IsPlainName e'.1) :
    runOn (makeDirectories d >>= fun _ => writeFiles d (e :: rest)) m = (.ok (), m') ↔
      ∃ t b, (store m).makeDirectories d = .ok t ∧ t.Opens d b ∧ CanWrite t d b (e :: rest) ∧
        m' = withStore m (t.putFiles b (e :: rest)) := by
  rw [runOn_bind_eq_ok]
  constructor
  · rintro ⟨⟨⟩, m₁, hmake, hwrite⟩
    obtain ⟨t, ht, rfl⟩ := runOn_makeDirectories_eq_ok.mp hmake
    -- There is at least one file, so the directory opens.
    obtain ⟨b, hb⟩ := opens_of_runOn_writeFiles (hplain e List.mem_cons_self) hwrite
    obtain ⟨hcan, rfl⟩ := (runOn_writeFiles_eq_ok hb hplain).mp hwrite
    rw [StoreMachine.store_withStore] at hb hcan
    refine ⟨t, b, ht, hb, hcan, ?_⟩
    rw [StoreMachine.withStore_withStore, StoreMachine.store_withStore]
  · rintro ⟨t, b, ht, hb, hcan, rfl⟩
    refine ⟨(), withStore m t, runOn_makeDirectories_eq_ok.mpr ⟨t, ht, rfl⟩, ?_⟩
    have hb' : (store (withStore m t)).Opens d b := by rwa [StoreMachine.store_withStore]
    rw [runOn_writeFiles_eq_ok hb' hplain, StoreMachine.store_withStore,
      StoreMachine.withStore_withStore]
    exact ⟨hcan, rfl⟩

/-- **Generating a dataset** succeeds exactly when the parameters are valid, no descriptor is in the
way, there is room for the arrays, and the directory and its files can be written; then the files
are put, and nothing else is done but making directories. -/
theorem runOn_generate_eq_ok {p : Parameters} {d : Path} {overwrite : Bool} {x : Descriptor}
    {m m' : σ} :
    runOn (generate p d overwrite) m = (.ok x, m') ↔
      ∃ s t b, p.validate = .ok () ∧ p.sizes = .ok s ∧ s.Allocatable ∧
        ((store m).present (descriptorPath d) = true → overwrite = true) ∧
        x = Descriptor.of p s (Content.generate p s) ∧
        (store m).makeDirectories d = .ok t ∧ t.Opens d b ∧
        CanWrite t d b (files x (Content.generate p s)) ∧
        m' = withStore m (t.putFiles b (files x (Content.generate p s))) := by
  rw [generate, runOn_bind_eq_ok]
  constructor
  · rintro ⟨⟨⟩, m₁, hvalidate, h₁⟩
    obtain ⟨hvalid, rfl⟩ := runOn_checked_eq_ok.mp hvalidate
    obtain ⟨s, m₂, hchecked, h₂⟩ := runOn_bind_eq_ok.mp h₁
    obtain ⟨hsizes, rfl⟩ := runOn_checked_eq_ok.mp hchecked
    rw [runOn_bind_of_ok (runOn_present _ _)] at h₂
    split at h₂
    -- A descriptor that is in the way has ended the generation.
    next hthere => simp at h₂
    next hthere =>
      obtain ⟨⟨⟩, m₃, hmake, h₃⟩ := runOn_bind_eq_ok.mp h₂
      have hroom := allocatable_of_fill h₃
      rw [fill_of_allocatable hroom] at h₃
      obtain ⟨⟨⟩, m₄, hwrite, h₄⟩ := runOn_bind_eq_ok.mp h₃
      obtain ⟨hx, rfl⟩ := Prod.mk.inj (h₄ : (Except.ok _, m₄) = (Except.ok x, m'))
      obtain rfl := Except.ok.inj hx
      obtain ⟨t, b, ht, hb, hcan, hm⟩ := (runOn_makeDirectories_writeFiles_eq_ok
        (fun _ => plain_of_mem_files)).mp (runOn_bind_eq_ok.mpr ⟨(), m₃, hmake, hwrite⟩)
      refine ⟨s, t, b, hvalid, hsizes, hroom, fun hp => ?_, rfl, ht, hb, hcan, hm⟩
      simpa [hp] using hthere
  · rintro ⟨s, t, b, hvalid, hsizes, hroom, hthere, rfl, ht, hb, hcan, rfl⟩
    refine ⟨(), m, runOn_checked_eq_ok.mpr ⟨hvalid, rfl⟩, ?_⟩
    rw [runOn_bind_of_ok (runOn_checked_eq_ok.mpr ⟨hsizes, rfl⟩),
      runOn_bind_of_ok (runOn_present _ _), if_neg (by simpa using hthere)]
    obtain ⟨⟨⟩, m₃, hmake, hwrite⟩ := runOn_bind_eq_ok.mp
      ((runOn_makeDirectories_writeFiles_eq_ok (fun _ => plain_of_mem_files)).mpr
        ⟨t, b, ht, hb, hcan, rfl⟩)
    -- There is room, so that filling is writing the row of four files.
    rw [runOn_bind_of_ok hmake, fill_of_allocatable hroom]
    exact runOn_bind_of_ok hwrite

/-! ### Directories that hold a dataset -/

/-- A directory holds a dataset: the path opens it, the file system takes the paths of its files,
and the four files stand in it. -/
structure Holds (s : Store) (d : Path) (b : Route) (x : Descriptor) (c : Content) : Prop where
  /-- The path opens the directory. -/
  opens : s.Opens d b
  /-- The file system takes the paths of the files. -/
  acceptable : ∀ e ∈ files x c, (d.join e.1).Acceptable
  /-- The files stand in the directory. -/
  node?_eq : ∀ e ∈ files x c, s.node? (b ++ [e.1]) = some (.file e.2)

namespace Holds

variable {s : Store} {d : Path} {b : Route} {x : Descriptor} {c : Content}

theorem route_eq {name : String} (h : Holds s d b x c) (hname : name ∈ fileNames) :
    s.route (d.join name) = .ok (b ++ [name]) := by
  obtain ⟨e, he, rfl⟩ := exists_mem_files x c hname
  exact (Store.route_join (plain_of_mem_files he)).mpr ⟨h.acceptable e he, b, h.opens, rfl⟩

theorem read {name : String} {content : ByteArray} (h : Holds s d b x c)
    (he : (name, content) ∈ files x c) : s.read (d.join name) = .ok content := by
  have hname : name ∈ fileNames := map_fst_files x c ▸ List.mem_map_of_mem he
  exact Store.read_eq_ok.mpr ⟨b ++ [name], h.route_eq hname, h.node?_eq _ he⟩

/-- The embeddings of a directory that holds a dataset. -/
theorem read_embeddings (h : Holds s d b x c) :
    s.read (d.join Descriptor.embeddingsName) = .ok c.embeddings :=
  h.read List.mem_cons_self

theorem read_axes (h : Holds s d b x c) : s.read (d.join Descriptor.axesName) = .ok c.axes :=
  h.read (List.mem_cons_of_mem _ List.mem_cons_self)

/-- The descriptor of a directory that holds a dataset, as the bytes of its document. -/
theorem read_descriptor (h : Holds s d b x c) :
    s.read (descriptorPath d) = .ok x.document.toUTF8 :=
  h.read (List.mem_cons_of_mem _ (List.mem_cons_of_mem _ List.mem_cons_self))

/-- The lock of a directory that holds a dataset: the digest, without a line break. -/
theorem read_lock (h : Holds s d b x c) : s.read (lockPath d) = .ok x.hash.toUTF8 :=
  h.read (List.mem_of_mem_getLast? rfl)

/-- **Some of the files** can be written anew. The directory holds another dataset from then on, if
each file of it is a new one or one that has been kept. -/
theorem put_files {m : σ} {new : List (String × ByteArray)} {x' : Descriptor} {c' : Content}
    (h : Holds (store m) d b x c) (hnames : ∀ e ∈ new, e.1 ∈ fileNames)
    (hnodup : (new.map (·.1)).Nodup)
    (hfiles : ∀ e ∈ files x' c', e ∈ new ∨ e ∈ files x c ∧ ∀ a ∈ new, e.1 ≠ a.1) :
    ∃ m', runOn (writeFiles d new) m = (.ok (), m') ∧ Holds (store m') d b x' c' := by
  have hplain : ∀ e ∈ new, IsPlainName e.1 := fun e he => plain_of_mem_fileNames e.1 (hnames e he)
  -- A file that is written anew replaces one that stands there, so nothing is in its way.
  have hcan : CanWrite (store m) d b new := by
    intro e he
    obtain ⟨e', he', hname⟩ := exists_mem_files x c (hnames e he)
    rw [← hname, h.node?_eq e' he']
    exact ⟨h.acceptable e' he', by simp⟩
  refine ⟨_, (runOn_writeFiles_eq_ok h.opens hplain).mpr ⟨hcan, rfl⟩, ?_⟩
  rw [StoreMachine.store_withStore]
  constructor
  · exact (Store.sameDirectories_putFiles fun e he => (hcan e he).2).opens h.opens
  · intro e he
    have hname : e.1 ∈ fileNames := map_fst_files x' c' ▸ List.mem_map_of_mem he
    obtain ⟨e', he', hname'⟩ := exists_mem_files x c hname
    exact hname' ▸ h.acceptable e' he'
  · intro e he
    -- Each file of the new dataset is one of those written, or one of those that no new name hits.
    rcases hfiles e he with hnew | ⟨hold, hne⟩
    · exact Store.node?_putFiles_of_mem hnodup hnew
    · rw [Store.node?_putFiles_of_ne, h.node?_eq e hold]
      intro a ha heq
      exact hne a ha (by simpa using heq)

/-- The arrays of a content under the names of their files. -/
def arrayFiles (c : Content) : List (String × ByteArray) :=
  [(Descriptor.embeddingsName, c.embeddings), (Descriptor.axesName, c.axes)]

/-- **Other arrays** can be written, and the directory holds them from then on. -/
theorem put_arrays {m : σ} (h : Holds (store m) d b x c) (c' : Content) :
    ∃ m', runOn (writeFiles d (arrayFiles c')) m = (.ok (), m') ∧
      Holds (store m') d b x c' := by
  have hnames : [Descriptor.embeddingsName, Descriptor.axesName].Nodup := by decide
  refine h.put_files (by simp [arrayFiles, fileNames]) hnames ?_
  simp [files, arrayFiles, descriptorName, lockName, Descriptor.embeddingsName,
    Descriptor.axesName]

/-- **Another descriptor** that records the same digest can be written, and the directory holds it
from then on. -/
theorem put_descriptor {m : σ} (h : Holds (store m) d b x c) {x' : Descriptor}
    (hhash : x'.hash = x.hash) :
    ∃ m', runOn (writeFiles d [(descriptorName, x'.document.toUTF8)]) m = (.ok (), m') ∧
      Holds (store m') d b x' c := by
  refine h.put_files (by simp [fileNames]) (by simp) ?_
  simp [files, descriptorName, lockName, Descriptor.embeddingsName, Descriptor.axesName, hhash]

end Holds

/-- **Generating a dataset** leaves a directory that holds it, and touches no other file. -/
theorem holds_of_generate {p : Parameters} {d : Path} {overwrite : Bool} {x : Descriptor}
    {m m' : σ} (h : runOn (generate p d overwrite) m = (.ok x, m')) :
    ∃ s b, p.sizes? = some s ∧ x = Descriptor.of p s (Content.generate p s) ∧
      Holds (store m') d b x (Content.generate p s) ∧
      ∀ r, (∀ name ∈ fileNames, r ≠ b ++ [name]) → ∀ c,
        (store m').node? r = some (.file c) ↔ (store m).node? r = some (.file c) := by
  obtain ⟨s, t, b, -, hsizes, -, -, hx, ht, hb, hcan, rfl⟩ := runOn_generate_eq_ok.mp h
  refine ⟨s, b, Parameters.sizes_eq_ok hsizes, hx, ?_, fun r hr c => ?_⟩
  · rw [StoreMachine.store_withStore]
    have hnodup : ((files x (Content.generate p s)).map (·.1)).Nodup := nodup_fileNames
    exact ⟨(Store.sameDirectories_putFiles fun e he => (hcan e he).2).opens hb,
      fun e he => (hcan e he).1, fun e he => Store.node?_putFiles_of_mem hnodup he⟩
  · -- Files at other routes: the four writes do not hit them, and making directories adds none.
    have hother : ∀ e ∈ files x (Content.generate p s), r ≠ b ++ [e.1] := fun e he =>
      hr e.1 (map_fst_files x (Content.generate p s) ▸ List.mem_map_of_mem he)
    rw [StoreMachine.store_withStore, Store.node?_putFiles_of_ne hother]
    exact (Store.addsDirectories_makeDirectories ht).file_iff r c

end Dataset

end PinnedBench
