import PinnedBench.Bench.Run
import PinnedBench.Proofs.Dataset.Descriptors
import PinnedBench.Proofs.Files.Changes
import PinnedBench.Proofs.Json.Values

/-!
# Summaries of runs as documents

The summary of a benchmark carries the descriptor of its dataset as free JSON. Whatever else a
reader makes of a summary that has been written, it finds that descriptor in it
(`RunSummary.dataset_of_ofText`), and under it the recorded digest
(`Descriptor.recordedHash_sorted`).
-/

namespace PinnedBench

/-! ### Descriptors as free values -/

namespace Descriptor

/-- A descriptor with its fields in the order of their names. -/
theorem sorted_toJson (x : Descriptor) :
    x.toJson.sorted = .object [("D", .ofWord x.d), ("M", .ofWord x.m), ("N", .ofWord x.n),
      ("axes_file", .string x.axesFile), ("axes_shape", x.axesShape.toJson),
      ("dtype", .string x.elementType), ("embeddings_file", .string x.embeddingsFile),
      ("embeddings_shape", x.embeddingsShape.toJson), ("hash_sha256", .string x.hash),
      ("seed", .ofWord x.seed),
      ("size_bytes", .object [("axes", .ofWord x.sizes.axes),
        ("embeddings", .ofWord x.sizes.embeddings), ("total", .ofWord x.sizes.total)])] := rfl

/-- The names of the fields of a descriptor, in order. -/
def sortedNames : List String :=
  ["D", "M", "N", "axes_file", "axes_shape", "dtype", "embeddings_file", "embeddings_shape",
    "hash_sha256", "seed", "size_bytes"]

/-- **A descriptor that is kept as a free value** is read back. -/
theorem ofTree_sorted (x : Descriptor) (levels : Nat) :
    Json.ofTree (levels + 2) x.toJson.sorted.tree = .ok x.toJson.sorted := by
  -- Shapes and sizes are one level further down, where there is room for them too.
  have hshape : ∀ s : ArrayShape, Json.ofTree (levels + 1) s.toJson.tree = .ok s.toJson := by
    intro s
    refine Json.ofTree_array ?_
    simp only [List.forall_mem_cons]
    exact ⟨Json.ofTree_ofWord _ _, Json.ofTree_ofWord _ _, by simp⟩
  have hsizes : Json.ofTree (levels + 1) (Json.object [("axes", .ofWord x.sizes.axes),
      ("embeddings", .ofWord x.sizes.embeddings), ("total", .ofWord x.sizes.total)]).tree =
        .ok (.object [("axes", .ofWord x.sizes.axes), ("embeddings", .ofWord x.sizes.embeddings),
          ("total", .ofWord x.sizes.total)]) := by
    have hnames : ["axes", "embeddings", "total"].Pairwise (· < ·) := by decide
    refine Json.ofTree_object ?_ (List.pairwise_map.mp hnames)
    simp only [List.forall_mem_cons, Json.ofTree_ofWord, true_and]
    simp
  -- The free value keeps its members in the order of their names, so reading keeps it as it is.
  have hnames : sortedNames.Pairwise (· < ·) := by decide
  rw [sorted_toJson]
  refine Json.ofTree_object ?_ (List.pairwise_map.mp hnames)
  simp only [List.forall_mem_cons, Json.ofTree_ofWord, Json.ofTree_string, hshape, hsizes, true_and]
  simp

/-- The digest that a free value records. -/
def recordedHash (j : Json) : Option Json := j.member? "hash_sha256"

/-- Sorting the members of a descriptor keeps the digest that it records. -/
theorem recordedHash_sorted (x : Descriptor) :
    recordedHash x.toJson.sorted = some (.string x.hash) := rfl

end Descriptor

/-! ### Summaries -/

namespace RunSummary

/-- The members of the document of a summary. -/
theorem toJson_eq (t : RunSummary) : ∃ members, t.toJson = .object members ∧
    (∀ m ∈ members, m.1 ∈ fieldNames) ∧ (members.map (·.1)).Nodup ∧
    (members.map fun m => (m.1, m.2.tree)).lookup "metadata" =
      some (Json.ofOption id t.dataset).tree ∧
    (members.map fun m => (m.1, m.2.tree)).lookup "baseline_samples" =
      some (Json.ofDoubles t.baseline).tree ∧
    (members.map fun m => (m.1, m.2.tree)).lookup "optimized_samples" =
      some (Json.ofDoubles t.optimized).tree := by
  refine ⟨_, rfl, ?_, ?_, rfl, rfl, rfl⟩
  · split <;> simp [fieldNames]
  · split <;> simp

/-- A reader of a summary reads its descriptor as a free value. -/
theorem dataset_of_decode {t s : RunSummary} {levels : Nat}
    (h : decode (levels + 1) t.toJson.tree = .ok s) :
    Json.Decoder.orNull .any levels (Json.ofOption id t.dataset).tree = .ok s.dataset := by
  obtain ⟨members, hmembers, hnames, hnodup, hlookup, -⟩ := t.toJson_eq
  rw [decode, hmembers, Json.Tree.fields_object hnames hnodup] at h
  obtain ⟨f, hf, h⟩ := bind_eq_ok.mp h
  obtain rfl := Except.ok.inj hf
  obtain ⟨dataset, hdataset, h⟩ := bind_eq_ok.mp h
  -- The fields behind the descriptor do not matter.
  iterate 11 obtain ⟨_, -, h⟩ := bind_eq_ok.mp h
  rw [Json.Fields.defaulted_of_lookup hlookup] at hdataset
  rw [hdataset, ← Except.ok.inj h]

/-- **A summary that has been written** carries the descriptor of the dataset that was run. -/
theorem dataset_of_ofText {o : Outcome} {x : Descriptor} {c : Configuration} {s : RunSummary}
    (h : ofText (of o x c).document = .ok s) : s.dataset = some x.toJson.sorted := by
  have hdecode : decode 127 (of o x c).toJson.tree = .ok s := by
    rw [ofText, document, Json.decodeText_pretty] at h
    exact mapError_eq_ok.mp h
  have hdataset := dataset_of_decode hdecode
  -- The descriptor is read as any value, which gives back what was written.
  have hany : Json.Decoder.orNull .any 126 x.toJson.sorted.tree = .ok (some x.toJson.sorted) := by
    change (Json.ofTree 126 x.toJson.sorted.tree).map some = _
    rw [x.ofTree_sorted 124]
    rfl
  exact (Except.ok.inj (hany.symm.trans hdataset)).symm

/-- A summary is loaded when there is a text that writes it. -/
theorem runOn_load_eq_ok {σ : Type} [Files (StateM σ)] [StoreMachine σ] {path : Path}
    {s : RunSummary} {m m' : σ} :
    runOn (load path) m = (.ok s, m') ↔
      (∃ bytes text, (store m).read path = .ok bytes ∧ textOfBytes bytes = .ok text ∧
        ofText text = .ok s) ∧ m' = m :=
  runOn_readText_checked_eq_ok

end RunSummary

/-! ### Saving -/

namespace Bench

variable {σ : Type} [Files (StateM σ)] [StoreMachine σ]

/-- The name of the table is one name, without separators. -/
theorem plain_tableName : IsPlainName tableName := by decide

/-- So is the name of the summary. -/
theorem plain_summaryName : IsPlainName summaryName := by decide

/-- **An outcome that is saved** leaves its table and its summary in the directory. -/
theorem reads_of_save {o : Outcome} {directory : Path} {x : Descriptor} {c : Configuration}
    {paths : Path × Path} {m m' : σ} (h : runOn (save o directory x c) m = (.ok paths, m')) :
    paths = (directory.join tableName, directory.join summaryName) ∧
      (store m').read (directory.join tableName) = .ok o.table.toCsv.toUTF8 ∧
      (store m').read (directory.join summaryName) =
        .ok (RunSummary.of o x c).document.toUTF8 := by
  obtain ⟨⟨⟩, m₁, -, h₁⟩ := runOn_bind_eq_ok.mp h
  obtain ⟨⟨⟩, m₂, htable, h₂⟩ := runOn_bind_eq_ok.mp h₁
  obtain ⟨⟨⟩, m₃, hsummary, h₃⟩ := runOn_bind_eq_ok.mp h₂
  obtain ⟨t, ht, rfl⟩ := runOn_writeFile_eq_ok.mp htable
  obtain ⟨u, hu, rfl⟩ := runOn_writeFile_eq_ok.mp hsummary
  obtain ⟨hpaths, rfl⟩ := Prod.mk.inj h₃
  rw [StoreMachine.store_withStore] at hu ⊢
  -- The two files have different names, so the summary does not take the place of the table.
  obtain ⟨r, hr, -⟩ := Store.write_eq_ok.mp hu
  obtain ⟨r', hr', -⟩ := Store.read_eq_ok.mp (Store.read_of_write ht)
  have hne : r' ≠ r := by
    obtain ⟨-, b, -, rfl⟩ := (Store.route_join plain_summaryName).mp hr
    obtain ⟨-, b', -, rfl⟩ := (Store.route_join plain_tableName).mp hr'
    exact fun heq => absurd (List.append_inj_right' heq rfl) (by decide)
  exact ⟨(Except.ok.inj hpaths).symm,
    Store.read_of_write_ne hu hr hr' hne (Store.read_of_write ht), Store.read_of_write hu⟩

/-- An outcome is saved where its directory can be made and its two files can be written. -/
theorem runOn_save_of_ok {o : Outcome} {directory : Path} {x : Descriptor} {c : Configuration}
    {s₁ s₂ s₃ : Store} {m : σ} (hmake : (store m).makeDirectories directory = .ok s₁)
    (htable : s₁.write (directory.join tableName) o.table.toCsv.toUTF8 = .ok s₂)
    (hsummary : s₂.write (directory.join summaryName)
      (RunSummary.of o x c).document.toUTF8 = .ok s₃) :
    runOn (save o directory x c) m =
      (.ok (directory.join tableName, directory.join summaryName), withStore m s₃) := by
  -- One step after the other: the directory is there, then the table, then the summary.
  have h₁ : runOn (makeDirectories directory) m = (.ok (), withStore m s₁) :=
    runOn_makeDirectories_eq_ok.mpr ⟨s₁, hmake, rfl⟩
  have h₂ : runOn (writeText (directory.join tableName) o.table.toCsv) (withStore m s₁) =
      (.ok (), withStore m s₂) := by
    refine runOn_writeFile_eq_ok.mpr ⟨s₂, ?_, by simp⟩
    rwa [StoreMachine.store_withStore]
  have h₃ : runOn (writeText (directory.join summaryName) (RunSummary.of o x c).document)
      (withStore m s₂) = (.ok (), withStore m s₃) := by
    refine runOn_writeFile_eq_ok.mpr ⟨s₃, ?_, by simp⟩
    rwa [StoreMachine.store_withStore]
  rw [save, runOn_bind_of_ok h₁]
  refine (runOn_bind_of_ok h₂).trans ?_
  exact runOn_bind_of_ok h₃

theorem saves_in_empty (o : Outcome) (x : Descriptor) (c : Configuration) :
    ∃ paths w, runOn (save o ⟨"runner"⟩ x c) (Workbench.ofStore (.ofCurrent [])) =
      (.ok paths, w) := by
  have hmake : (store (Workbench.ofStore (.ofCurrent []))).makeDirectories ⟨"runner"⟩ =
      .ok ⟨[], [(["runner"], .directory)]⟩ := rfl
  exact ⟨_, _, runOn_save_of_ok hmake rfl rfl⟩

end Bench

end PinnedBench
