import PinnedBench.Command.Program
import PinnedBench.Proofs.Command.Watching

/-!
# What failed commands leave behind

Every command loads and checks all that it needs before it writes anything, and what follows its
first file cannot fail but by a refused file. So a command that fails leaves every file and
directory as it was, unless the machine has refused to write a file or to make a directory
(`failure_leaves_no_trace`).

Generating a dataset is the one command that checks after it has written. There the check cannot
fail, because what has been generated verifies (`Dataset.runOn_verify_of_generate`). It is also the
one command that may break down between two files: an array for which there is no room in memory is
found out when the directory has been made, and perhaps the first array written
(`crash_leaves_trace`).
-/

namespace PinnedBench

/-! ### Datasets -/

namespace Dataset

/-- Loading a descriptor only reads. -/
theorem reads_load (p : Path) : Reads (load p) (load p) :=
  (reads_readText p).bind fun _ => reads_checked _ _

/-- Reading an array looks at the file and at its size. -/
theorem reads_readArray (p : Path) (shape : ArrayShape) :
    Reads (readArray p shape) (readArray p shape) := by
  refine (keeps_read p).lift.bind fun r => ?_
  rcases r with e | bytes
  · cases e <;> exact reads_throw _
  · cases arrayBytes? shape.1 shape.2 with
    | none => exact reads_throw _
    | some required =>
      simp only
      split
      · exact reads_pure _
      · exact reads_throw _

/-- Verifying only reads, wherever it stops. -/
theorem reads_verify (d : Path) : Reads (verify d) (verify d) := by
  refine (keeps_present _).lift.bind fun there => ?_
  cases there with
  | false => exact reads_throw _
  | true =>
    -- Each of the three files is read and looked at, and the first flaw ends it.
    refine ((reads_load _).adapt Flaw.descriptor).bind fun x => ?_
    refine (reads_readArray _ _).bind fun embeddings => ?_
    refine (reads_readArray _ _).bind fun axes => ?_
    dsimp only
    split
    · exact reads_pure _
    · exact reads_throw _

/-- Comparing with the lock only reads. -/
theorem reads_verifyLock (x : Descriptor) (d : Path) : Reads (verifyLock x d) (verifyLock x d) := by
  refine ((reads_readText _).bind fun text => reads_pure _).bind fun lock => ?_
  split
  · exact reads_pure _
  · exact reads_throw _

/-- Writing a list of files does nothing else. -/
theorem writes_writeFiles (d : Path) (files : List (String × ByteArray)) :
    Writes (writeFiles d files) (writeFiles d files) := by
  -- On the list: each file is written before the ones behind it.
  induction files with
  | nil => exact writes_pure ()
  | cons e rest ih => exact (writes_writeFile _ _).bind fun _ => ih

/-- Where there is room for its arrays, generating a dataset checks first, and then makes
directories and writes files. -/
theorem traceless_generate {p : Parameters} (h : p.Allocatable) (d : Path) (overwrite : Bool) :
    Traceless (generate p d overwrite) (generate p d overwrite) := by
  -- The parameters, the sizes and whether there is a dataset already are looked at before any
  -- change.
  refine (reads_checked _ _).bind_traceless fun _ => ?_
  refine traceless_checked_bind fun s hs => ?_
  refine (keeps_present _).lift.bind_traceless fun there => ?_
  split
  · exact (reads_throw _).traceless
  · -- All checks have been passed, and nothing fails from here on but what is refused.
    have hroom := h s (Parameters.sizes_eq_ok hs)
    refine Writes.traceless ((writes_makeDirectories d).bind fun _ => ?_)
    rw [fill_of_allocatable hroom, fill_of_allocatable hroom]
    exact (writes_writeFiles _ _).bind fun _ => writes_pure _

/-- A dataset that has been generated verifies, on every workbench with these files. -/
theorem runOn_verify_of_generate {p : Parameters} {d : Path} {overwrite : Bool} {x : Descriptor}
    {w w₁ w₂ : Workbench} (h : runOn (generate p d overwrite) w = (.ok x, w₁))
    (hstore : w₂.store = w₁.store) : runOn (verify d) w₂ = (.ok x.hash, w₂) := by
  -- What has been generated stands in the files, and only the files are asked for.
  obtain ⟨s, b, hs, rfl, hholds, -⟩ := holds_of_generate h
  have hholds₂ : Holds (store w₂) d b (.of p s (.generate p s)) (.generate p s) := by
    rwa [store_workbench, hstore]
  rw [hholds₂.runOn_verify, verdict_generated hs]
  rfl

end Dataset

/-- The command that verifies reads, and prints what it has found. -/
theorem VerifyArguments.reads_execute (a : VerifyArguments) : Reads a.execute a.execute :=
  ((Dataset.reads_verify _).adapt _).bind fun _ => reads_say _

/-- What follows the generation of a dataset succeeds. -/
theorem GenerateArguments.runOn_rest {a : GenerateArguments} {x : Descriptor} {w w₁ : Workbench}
    (h : runOn (Dataset.generate a.parameters a.directory a.overwrite) w = (.ok x, w₁)) :
    ∃ w₂, runOn (do
        say s!"  Hash: {x.hash}"
        say s!"  Size: {x.sizes.total} bytes"
        VerifyArguments.execute ⟨a.directory⟩) w₁ = (.ok (), w₂) := by
  obtain ⟨w₂, hsay₁, hstore₁⟩ := runOn_say s!"  Hash: {x.hash}" w₁
  obtain ⟨w₃, hsay₂, hstore₂⟩ := runOn_say s!"  Size: {x.sizes.total} bytes" w₂
  -- Printing has kept the files, so what is verified is what has been written.
  have hverify : runOn (Dataset.verify a.directory) w₃ = (.ok x.hash, w₃) :=
    Dataset.runOn_verify_of_generate h (hstore₂.trans hstore₁)
  obtain ⟨w₄, hsay₃, -⟩ := runOn_say s!"✓ Dataset verified: {x.hash}" w₃
  refine ⟨w₄, (runOn_bind_of_ok hsay₁).trans ?_⟩
  refine (runOn_bind_of_ok hsay₂).trans ?_
  exact (runOn_bind_of_ok (runOn_adapt_eq_ok.mpr hverify)).trans hsay₃

/-- Generating fails before anything is written, or because a file has been refused. -/
theorem GenerateArguments.traceless_execute {a : GenerateArguments}
    (h : a.parameters.Allocatable) : Traceless a.execute a.execute := by
  refine (reads_say _).bind_traceless fun _ => ?_
  have hgenerate := (Dataset.traceless_generate h a.directory a.overwrite).adapt
    (Failure.within (.generating a.directory))
  -- Verifying comes after the files have been written, so it has to succeed.
  refine hgenerate.bind_of_ok (fun x => ?_) fun w x w' hok => ?_
  · exact ((reads_say _).bind fun _ => (reads_say _).bind fun _ =>
      VerifyArguments.reads_execute _).mirrors
  · obtain ⟨w₂, hrest⟩ := GenerateArguments.runOn_rest (runOn_adapt_eq_ok.mp hok)
    exact ⟨(), w₂, hrest⟩

/-- Where a dataset is to be generated and the command fails, the generation itself has failed. -/
theorem GenerateArguments.fault_of_execute {a : GenerateArguments} {f : Failure} {w w' : Workbench}
    (h : runOn a.execute w = (.error f, w')) :
    ∃ fault, f = .within (.generating a.directory) fault := by
  rw [GenerateArguments.execute] at h
  obtain ⟨w₁, hsay, -⟩ := runOn_say
    s!"Generating dataset: N={a.parameters.n}, M={a.parameters.m}, D={a.parameters.d}, seed={a.parameters.seed}" w
  rw [runOn_bind_of_ok hsay, runOn_bind, during, runOn_adapt] at h
  rcases hrun : runOn (Dataset.generate a.parameters a.directory a.overwrite) w₁ with ⟨e | x, w₂⟩
  · rw [hrun] at h
    exact ⟨e, (Except.error.inj (Prod.mk.inj h).1).symm⟩
  · -- Had it been generated, the rest would have succeeded.
    obtain ⟨w₃, hrest⟩ := GenerateArguments.runOn_rest hrun
    rw [hrun] at h
    exact absurd (Prod.mk.inj (hrest.symm.trans h)).1 (by simp)

/-! ### Benchmarks -/

/-- Running the benchmark only reads files. -/
theorem Bench.reads_run (x : Descriptor) (d : Path) (implementations : List Implementation)
    (c : Configuration) :
    Reads (Bench.run x d implementations c) (Bench.run x d implementations c) := by
  refine (reads_checked _ _).bind fun _ => ?_
  refine (Dataset.reads_verifyLock x d).bind fun _ => ?_
  exact (Keeps.mapM (keeps_measure c) implementations).lift

/-- Saving the results makes a directory and writes two files. -/
theorem Bench.writes_save (o : Outcome) (d : Path) (x : Descriptor) (c : Configuration) :
    Writes (Bench.save o d x c) (Bench.save o d x c) := by
  refine (writes_makeDirectories d).bind fun _ => ?_
  refine (writes_writeFile _ _).bind fun _ => ?_
  exact (writes_writeFile _ _).bind fun _ => writes_pure _

/-- Measuring reads files and prints, but it writes none. -/
theorem RunArguments.reads_measured (a : RunArguments) : Reads a.measured a.measured := by
  refine ((Dataset.reads_load _).adapt _).bind fun x => ?_
  refine (reads_say _).bind fun _ => ?_
  refine ((reads_checked _ _).adapt _).bind fun implementations => ?_
  refine ((Dataset.reads_verifyLock _ _).adapt _).bind fun _ => ?_
  refine (keeps_settle _ _).lift.bind fun waited => ?_
  refine (reads_say _).bind fun _ => ?_
  refine (reads_sayAll _).bind fun _ => ?_
  exact ((Bench.reads_run _ _ _ _).adapt _).bind fun outcome => reads_pure _

/-- Concluding writes the results, and checks nothing any more. -/
theorem RunArguments.writes_conclude (a : RunArguments) (x : Descriptor) (c : Configuration)
    (o : Outcome) : Writes (a.conclude x c o) (a.conclude x c o) := by
  refine ((Bench.writes_save _ _ _ _).adapt _).bind fun paths => ?_
  exact (writes_sayAll _).bind fun _ => writes_sayAll _

/-- All that a run checks comes before the first file that it writes. -/
theorem RunArguments.traceless_execute (a : RunArguments) : Traceless a.execute a.execute :=
  a.reads_measured.bind_traceless fun (x, c, o) => (a.writes_conclude x c o).traceless

/-! ### Reports -/

/-- Evidence is read if it is given and there. -/
theorem reads_loadEvidence (path : Option Path) :
    Reads (loadEvidence path) (loadEvidence path) := by
  cases path with
  | none => exact reads_pure _
  | some p =>
    refine (keeps_present p).lift.bind fun there => ?_
    split
    · exact (reads_readText p).bind fun _ => reads_checked _ _
    · exact reads_pure _

/-- Writing a report makes the directory above it, if there is one, and writes a file. -/
theorem Report.writes_write (r : Report) (target : Path) :
    Writes (r.write target) (r.write target) := by
  rw [Report.write, Report.write]
  cases target.parent? with
  | none => exact writes_writeFile _ _
  | some above =>
    dsimp only
    split
    · exact writes_writeFile _ _
    · exact (writes_makeDirectories above).bind fun _ => writes_writeFile _ _

/-- Delivering a report writes it and says so. -/
theorem Report.writes_deliver (r : Report) (target : Path) :
    Writes (r.deliver target) (r.deliver target) := by
  refine ((r.writes_write target).adapt _).bind fun _ => ?_
  exact (writes_say _).bind fun _ => (keeps_print _).writes_lift

/-- A report is made of all that is read before it is written. -/
theorem ReportArguments.traceless_execute (a : ReportArguments) :
    Traceless a.execute a.execute := by
  refine (((reads_readText _).bind fun _ => reads_checked _ _).adapt _).bind_traceless fun s => ?_
  refine ((Dataset.reads_load _).adapt _).bind_traceless fun x => ?_
  refine ((reads_loadEvidence _).adapt _).bind_traceless fun evidence => ?_
  dsimp only
  -- The rates are read from a file or are the usual ones.
  cases a.rates with
  | none =>
    refine (reads_pure _).bind_traceless fun rates => ?_
    exact keeps_stamp.lift.bind_traceless fun stamp => (Report.writes_deliver _ _).traceless
  | some path =>
    refine (((reads_readText path).bind fun _ => reads_checked _ _).adapt _).bind_traceless
      fun rates => ?_
    exact keeps_stamp.lift.bind_traceless fun stamp => (Report.writes_deliver _ _).traceless

/-- A conversion is complete before the report is written. -/
theorem ConvertArguments.traceless_execute (a : ConvertArguments) :
    Traceless a.execute a.execute := by
  refine (((reads_readText _).bind fun _ => reads_checked _ _).adapt _).bind_traceless fun x => ?_
  refine Reads.bind_traceless ?_ fun dataset => ?_
  · -- A descriptor is read where one is named, and its dataset is what goes into the report.
    cases a.descriptor with
    | none => exact reads_pure _
    | some path =>
      exact (((Dataset.reads_load path).adapt _).bind fun _ => reads_pure _).bind
        fun _ => reads_pure _
  · refine keeps_stamp.lift.bind_traceless fun stamp => ?_
    refine ((reads_checked _ _).adapt _).bind_traceless fun r => ?_
    exact (Report.writes_deliver _ _).traceless

/-! ### Commands -/

/-- There is room in memory for the arrays that a command draws, if it draws any. -/
def Command.Allocatable : Command → Prop
  | .generate a => a.parameters.Allocatable
  | _ => True

/-- Every command is traceless, generating under the condition that there is room in memory. -/
theorem Command.traceless_execute {c : Command} (h : c.Allocatable) :
    Traceless c.execute c.execute := by
  cases c with
  | generate a => exact GenerateArguments.traceless_execute h
  | verify a => exact a.reads_execute.traceless
  | run a => exact a.traceless_execute
  | report a => exact a.traceless_execute
  | convert a => exact a.traceless_execute

/-! ### The program -/

/-- Where the program ends with a code that is not zero and nothing has been refused, the files are
as before. -/
structure EndsTraceless (x : StateM Watched UInt32) (y : StateM Workbench UInt32) : Prop where
  /-- It comes to the same on the workbench. -/
  mirrors : ∀ w, y w.machine = ((x w).1, (x w).2.machine)
  /-- With a code that is not zero and nothing refused, the files are as before. -/
  store_eq : ∀ w, (x w).1 ≠ 0 → (x w).2.refused = false →
    (x w).2.machine.store = w.machine.store

/-- A step that keeps the files leaves no trace with any code. -/
theorem Keeps.ends {x : StateM Watched UInt32} {y : StateM Workbench UInt32} (h : Keeps x y) :
    EndsTraceless x y :=
  ⟨h.mirrors, fun w _ _ => h.store_eq w⟩

/-- A step that keeps the files may come before. -/
theorem Keeps.bind_ends {α : Type} {x : StateM Watched α} {y : StateM Workbench α}
    {f : α → StateM Watched UInt32} {g : α → StateM Workbench UInt32} (h : Keeps x y)
    (hf : ∀ a, EndsTraceless (f a) (g a)) : EndsTraceless (x >>= f) (y >>= g) where
  mirrors w := by
    change g (y w.machine).1 (y w.machine).2 = _
    rw [h.mirrors w]
    exact (hf _).mirrors _
  store_eq w hcode hrefused := ((hf _).store_eq _ hcode hrefused).trans (h.store_eq w)

/-- A traceless step, and then a code that is zero where the step has succeeded. -/
theorem Traceless.ends {ε α : Type} {x : ExceptT ε (StateM Watched) α}
    {y : ExceptT ε (StateM Workbench) α} {f : Except ε α → StateM Watched UInt32}
    {g : Except ε α → StateM Workbench UInt32} (h : Traceless x y) (hf : ∀ r, Keeps (f r) (g r))
    (hzero : ∀ a w, (f (.ok a) w).1 = 0) : EndsTraceless (x.run >>= f) (y.run >>= g) where
  mirrors w := by
    change g (runOn y w.machine).1 (runOn y w.machine).2 = _
    rw [h.mirrors w]
    exact (hf _).mirrors _
  store_eq w hcode hrefused := by
    -- The second step is taken where the first one has ended, and tells nothing but the code.
    change (f (runOn x w).1 (runOn x w).2).1 ≠ 0 at hcode
    change (f (runOn x w).1 (runOn x w).2).2.refused = false at hrefused
    change (f (runOn x w).1 (runOn x w).2).2.machine.store = w.machine.store
    rw [(hf _).refused_eq] at hrefused
    rw [(hf _).store_eq]
    cases hrun : (runOn x w).1 with
    | ok a =>
      rw [hrun, hzero a] at hcode
      exact absurd rfl hcode
    | error e => exact h.store_eq w e hrun hrefused

/-- What the program does with a command line that it takes. -/
theorem Invocation.ends_perform {i : Invocation} (h : i.command.Allocatable) :
    EndsTraceless i.perform i.perform := by
  rw [perform, perform]
  -- With a remark before it or without, the command is executed and its failure told.
  cases i.debug
  case' true => refine (keeps_remark _).bind_ends fun _ => ?_
  all_goals
    refine (Command.traceless_execute h).ends ?_ fun _ _ => rfl
    rintro (failure | ⟨⟩)
    · exact (keeps_remark _).bind fun _ => keeps_pure failure.code
    · exact keeps_pure 0

/-- There is room in memory for what a command line asks to be drawn. -/
def FitMemory (words : List String) : Prop :=
  ∀ i, Invocation.ofWords words = .ok i → i.command.Allocatable

/-- What the program does with any command line. -/
theorem ends_runProgram {words : List String} (h : FitMemory words) :
    EndsTraceless (runProgram words) (runProgram words) := by
  rw [runProgram, runProgram]
  cases hwords : Invocation.ofWords words with
  | ok i => exact Invocation.ends_perform (h i hwords)
  | error stop =>
    dsimp only
    -- What is not taken is answered by a text, with code 0 if help was asked for and 2 if not.
    split
    · exact ((keeps_print _).bind fun _ => keeps_pure 0).ends
    · exact ((keeps_remark _).bind fun _ => keeps_pure 2).ends

/-! ### No trace -/

/-- **A command that fails leaves no trace.** Let a command fail on a workbench, let there be room
in memory for the arrays that it draws, and let no file or directory have been refused on the way.
Then all files and directories are as they were. A program that ends with a code that is not zero
leaves no trace either, be it that its command has failed or that the command line is not taken.

Where it is a dataset that was to be generated, the command has failed in the generation, never in
verifying what had been written. That rests on the files of a workbench: what has been written there
is read back (`Store.read_of_write`), and no file goes by two names (`Store.read_of_write_ne`). -/
theorem failure_leaves_no_trace (w : Workbench) :
    (∀ (c : Command) (f : Failure) (w' : Workbench), c.Allocatable →
        runOn c.execute w = (.error f, w') →
        (runOn c.execute (Watched.of w)).2.refused = false → w'.store = w.store) ∧
      (∀ (a : GenerateArguments) (f : Failure) (w' : Workbench),
        runOn (Command.generate a).execute w = (.error f, w') →
        ∃ fault, f = .within (.generating a.directory) fault) ∧
      ∀ (words : List String) (code : UInt32) (w' : Workbench), FitMemory words →
        (runProgram words : StateM Workbench UInt32) w = (code, w') → code ≠ 0 →
        ((runProgram words : StateM Watched UInt32) (.of w)).2.refused = false →
        w'.store = w.store := by
  refine ⟨fun c f w' hroom h hrefused => ?_, fun a f w' h => GenerateArguments.fault_of_execute h,
    fun words code w' hroom h hcode hrefused => ?_⟩
  · -- The command is run on a watched workbench, which comes to the same and remembers refusals.
    have htraceless := Command.traceless_execute hroom
    obtain ⟨hresult, hmachine⟩ := Prod.mk.inj ((htraceless.mirrors (.of w)).symm.trans h)
    rw [← hmachine]
    exact htraceless.store_eq (.of w) f hresult hrefused
  · -- The program likewise, with its code in place of the failure.
    have hends := ends_runProgram hroom
    obtain ⟨hresult, hmachine⟩ := Prod.mk.inj ((hends.mirrors (.of w)).symm.trans h)
    rw [← hmachine]
    exact hends.store_eq (.of w) (hresult ▸ hcode) hrefused

/-- A workbench with a directory that has a descriptor. -/
def occupied : Workbench :=
  .ofStore ⟨[], [(["data"], .directory), (["data", "metadata.json"], .file .empty)]⟩

/-- Neither a dataset that is in the way nor a command that is not known changes anything. -/
theorem occupied_is_kept :
    (∃ f w', Command.Allocatable (.generate ⟨⟨1, 1, 1, 0⟩, ⟨"data"⟩, false⟩) ∧
        runOn (Command.generate ⟨⟨1, 1, 1, 0⟩, ⟨"data"⟩, false⟩).execute occupied =
          (.error f, w') ∧ w'.store = occupied.store ∧
        ∃ fault, f = .within (.generating ⟨"data"⟩) fault) ∧
      ∃ code w', FitMemory ["degenerate"] ∧
        (runProgram ["degenerate"] : StateM Workbench UInt32) occupied = (code, w') ∧
        code ≠ 0 ∧ w'.store = occupied.store := by
  obtain ⟨hcommand, hgenerate, hprogram⟩ := failure_leaves_no_trace occupied
  constructor
  · have hroom : Command.Allocatable (.generate ⟨⟨1, 1, 1, 0⟩, ⟨"data"⟩, false⟩) := by
      intro s hs
      have hsizes : Parameters.sizes? ⟨1, 1, 1, 0⟩ = some ⟨8, 8, 16⟩ := by decide
      obtain rfl := Option.some.inj (hsizes.symm.trans hs)
      decide
    -- The descriptor is in the way and is seen before anything is written.
    have hrefused : (runOn (Command.generate ⟨⟨1, 1, 1, 0⟩, ⟨"data"⟩, false⟩).execute
        (Watched.of occupied)).2.refused = false := by decide +kernel
    have hfailed : (runOn (Command.generate ⟨⟨1, 1, 1, 0⟩, ⟨"data"⟩, false⟩).execute
        occupied).1.isOk = false := by decide +kernel
    -- The command has failed, so the first of the three statements is about it.
    rcases hrun : runOn (Command.generate ⟨⟨1, 1, 1, 0⟩, ⟨"data"⟩, false⟩).execute occupied
      with ⟨f | u, w'⟩
    · exact ⟨f, w', hroom, rfl, hcommand _ f w' hroom hrun hrefused, hgenerate _ f w' hrun⟩
    · rw [hrun] at hfailed
      simp [Except.isOk, Except.toBool] at hfailed
  · have hunknown : (Invocation.ofWords ["degenerate"]).isOk = false := by decide +kernel
    have hroom : FitMemory ["degenerate"] := by
      intro i hi
      rw [hi] at hunknown
      simp [Except.isOk, Except.toBool] at hunknown
    have hcode : ((runProgram ["degenerate"] : StateM Workbench UInt32) occupied).1 ≠ 0 := by
      decide +kernel
    have hrefused : ((runProgram ["degenerate"] : StateM Watched UInt32)
        (.of occupied)).2.refused = false := by decide +kernel
    exact ⟨_, _, hroom, rfl, hcode, hprogram ["degenerate"] _ _ hroom rfl hcode hrefused⟩

/-- The words that ask for a dataset whose axes have `2 ^ 63` bytes. -/
def oversized : List String :=
  ["generate", "--output", "data", "--n", "1", "--m", "1152921504606846976", "--d", "1"]

/-- **A crash leaves a trace.** Where there is no room in memory for the axes, that is found out
when the embeddings have been written, and the program ends there with their file left behind. -/
theorem crash_leaves_trace : ¬∀ (w : Workbench) (words : List String) (code : UInt32)
    (w' : Workbench), (runProgram words : StateM Workbench UInt32) w = (code, w') → code ≠ 0 →
      ((runProgram words : StateM Watched UInt32) (.of w)).2.refused = false →
      w'.store = w.store := by
  intro hall
  have hcode : ((runProgram oversized : StateM Workbench UInt32)
      (.ofStore (.ofCurrent []))).1 ≠ 0 := by decide +kernel
  have hrefused : ((runProgram oversized : StateM Watched UInt32)
      (.of (.ofStore (.ofCurrent [])))).2.refused = false := by decide +kernel
  have hleft : ((runProgram oversized : StateM Workbench UInt32)
      (.ofStore (.ofCurrent []))).2.store.present ⟨"data/embeddings.f64"⟩ = true := by
    decide +kernel
  have hall := hall (.ofStore (.ofCurrent [])) oversized
  -- The program has run: what it has come to is known by these three facts only.
  generalize (runProgram oversized : StateM Workbench UInt32) (.ofStore (.ofCurrent [])) = ended
    at hcode hleft hall
  obtain ⟨code, w'⟩ := ended
  have hstore : w'.store = .ofCurrent [] := hall code w' rfl hcode hrefused
  -- The file would have been there before.
  rw [hstore] at hleft
  exact absurd hleft (by decide)

end PinnedBench
