import PinnedBench.Command.Execution
import PinnedBench.Proofs.Bench.Preflight
import PinnedBench.Proofs.Bench.Summaries

/-!
# Steps of commands

The steps that commands are put together from, as they are taken on a workbench. Printing and
settling always succeed and leave the files as they are. A report that has been delivered stands in
its file (`read_of_deliver`), and it is delivered whenever it can be written
(`runOn_deliver_of_ok`).
-/

namespace PinnedBench

/-! ### Steps that may fail -/

section Steps

variable {σ α : Type}

/-- A step that is told plainly succeeds as it does alone. -/
theorem runOn_plainly_eq_ok {step : ExceptT Fault (StateM σ) α} {m m' : σ} {a : α} :
    runOn (plainly step) m = (.ok a, m') ↔ runOn step m = (.ok a, m') :=
  runOn_adapt_eq_ok

/-- A step that is told with what it was for succeeds as it does alone. -/
theorem runOn_during_eq_ok {activity : Activity} {step : ExceptT Fault (StateM σ) α} {m m' : σ}
    {a : α} : runOn (during activity step) m = (.ok a, m') ↔ runOn step m = (.ok a, m') :=
  runOn_adapt_eq_ok

end Steps

/-! ### Steps that keep the files -/

theorem runOn_say (line : String) (w : Workbench) :
    ∃ w', runOn (say line) w = (.ok (), w') ∧ w'.store = w.store :=
  ⟨{ w with printed := w.printed ++ (line ++ "\n") }, rfl, rfl⟩

/-- Lines as they are printed. -/
def linesText (lines : List String) : String := String.join (lines.map (· ++ "\n"))

theorem linesText_append (lines lines' : List String) :
    linesText (lines ++ lines') = linesText lines ++ linesText lines' := by
  rw [linesText, List.map_append, String.join_append, linesText, linesText]

/-- Printing lines adds them to what has been printed. -/
theorem runOn_sayAll_eq (lines : List String) (w : Workbench) :
    runOn (sayAll lines) w = (.ok (), { w with printed := w.printed ++ linesText lines }) := by
  -- On the lines: each is added to what the lines before it have left.
  induction lines generalizing w with
  | nil =>
    rw [linesText, List.map_nil, String.join_nil, String.append_empty]
    rfl
  | cons line lines ih =>
    have hline : runOn (say line) w =
        (.ok (), { w with printed := w.printed ++ (line ++ "\n") }) := rfl
    refine (runOn_bind_of_ok hline).trans ((ih _).trans ?_)
    rw [linesText, linesText, List.map_cons, String.join_cons, String.append_assoc]

theorem runOn_sayAll (lines : List String) (w : Workbench) :
    ∃ w', runOn (sayAll lines) w = (.ok (), w') ∧ w'.store = w.store :=
  ⟨_, runOn_sayAll_eq lines w, rfl⟩

/-- Settling leaves a workbench as it is, and nothing is waited for if it is not asked for. -/
theorem runOn_settle (c : Configuration) (limit : Nat) (w : Workbench) :
    ∃ waited, runOn (ExceptT.lift (c.settle limit) : ExceptT Failure (StateM Workbench) Double) w =
      (.ok waited, w) ∧ (c.settles = false → waited = ((0 : Nat) : Double)) := by
  rw [Configuration.settle]
  cases hsettles : c.settles with
  | false => exact ⟨_, rfl, fun _ => rfl⟩
  | true =>
    rw [if_pos rfl]
    -- What is waited for is told by the clock of the workbench.
    cases c.mode.settleTime limit with
    | none => exact ⟨_, rfl, nofun⟩
    | some milliseconds => exact ⟨w.passing milliseconds, rfl, nofun⟩

/-! ### The end of a benchmark -/

/-- **What a benchmark has measured** before it concludes: it has loaded its descriptor, read its
list and run the implementations of the list. -/
theorem run_of_measured {a : RunArguments} {x : Descriptor} {c : Configuration} {o : Outcome}
    {w w' : Workbench} (h : runOn a.measured w = (.ok (x, c, o), w')) :
    ∃ implementations waited w₁, runOn (Dataset.load a.descriptor) w = (.ok x, w) ∧
      Implementation.parseList a.implementations.toList = .ok implementations ∧
      c = { a.configuration with waited := waited } ∧
      runOn (Bench.run x (datasetDirectory a.descriptor) implementations c) w₁ = (.ok o, w') := by
  rw [RunArguments.measured] at h
  obtain ⟨y, w₁, hload, h₁⟩ := runOn_bind_eq_ok.mp h
  rw [runOn_during_eq_ok] at hload
  obtain ⟨-, rfl⟩ := Dataset.runOn_load_eq_ok.mp hload
  obtain ⟨⟨⟩, w₂, -, h₂⟩ := runOn_bind_eq_ok.mp h₁
  obtain ⟨implementations, w₃, hparse, h₃⟩ := runOn_bind_eq_ok.mp h₂
  rw [runOn_plainly_eq_ok] at hparse
  obtain ⟨hparse, -⟩ := runOn_checked_eq_ok.mp hparse
  obtain ⟨⟨⟩, w₄, -, h₄⟩ := runOn_bind_eq_ok.mp h₃
  obtain ⟨waited, w₅, -, h₅⟩ := runOn_bind_eq_ok.mp h₄
  obtain ⟨⟨⟩, w₆, -, h₆⟩ := runOn_bind_eq_ok.mp h₅
  obtain ⟨⟨⟩, w₇, -, h₇⟩ := runOn_bind_eq_ok.mp h₆
  obtain ⟨o', w₈, hrun, h₈⟩ := runOn_bind_eq_ok.mp h₇
  rw [runOn_plainly_eq_ok] at hrun
  -- What is given back is what the steps have come to.
  obtain ⟨hresult, rfl⟩ := Prod.mk.inj h₈
  obtain ⟨rfl, hrest⟩ := Prod.mk.inj (Except.ok.inj hresult)
  obtain ⟨rfl, rfl⟩ := Prod.mk.inj hrest
  exact ⟨implementations, waited, w₇, hload, hparse, rfl, hrun⟩

/-- A benchmark that has been run has concluded with what it has measured. -/
theorem conclude_of_execute {a : RunArguments} {w w' : Workbench}
    (h : runOn a.execute w = (.ok (), w')) :
    ∃ x o c w₁, runOn a.measured w = (.ok (x, c, o), w₁) ∧
      runOn (a.conclude x c o) w₁ = (.ok (), w') := by
  obtain ⟨⟨x, c, o⟩, w₁, hmeasured, hconclude⟩ := runOn_bind_eq_ok.mp h
  exact ⟨x, o, c, w₁, hmeasured, hconclude⟩

/-- **Concluding** is saving and then printing the comparison and the paths. -/
theorem runOn_conclude_eq_ok {a : RunArguments} {x : Descriptor} {c : Configuration} {o : Outcome}
    {w w' : Workbench} :
    runOn (a.conclude x c o) w = (.ok (), w') ↔
      ∃ paths w₁, runOn (Bench.save o a.directory x c) w = (.ok paths, w₁) ∧
        w' = { w₁ with printed := w₁.printed ++ linesText (o.comparisonLines ++
          ["", "✓ Results: " ++ paths.1.text, "✓ Summary: " ++ paths.2.text]) } := by
  -- Printing does not fail, so the outcome is that of saving.
  have hprint : ∀ (paths : Path × Path) (w₁ : Workbench),
      runOn (sayAll o.comparisonLines >>= fun _ =>
        sayAll ["", "✓ Results: " ++ paths.1.text, "✓ Summary: " ++ paths.2.text]) w₁ =
        (.ok (), { w₁ with printed := w₁.printed ++ linesText (o.comparisonLines ++
          ["", "✓ Results: " ++ paths.1.text, "✓ Summary: " ++ paths.2.text]) }) := by
    intro paths w₁
    refine (runOn_bind_of_ok (runOn_sayAll_eq _ w₁)).trans ((runOn_sayAll_eq _ _).trans ?_)
    rw [linesText_append, String.append_assoc]
  rw [RunArguments.conclude]
  constructor
  · intro h
    obtain ⟨paths, w₁, hsave, h₁⟩ := runOn_bind_eq_ok.mp h
    rw [runOn_during_eq_ok] at hsave
    have hend := (hprint paths w₁).symm.trans h₁
    exact ⟨paths, w₁, hsave, (Prod.mk.inj hend).2.symm⟩
  · rintro ⟨paths, w₁, hsave, rfl⟩
    exact (runOn_bind_of_ok (runOn_during_eq_ok.mpr hsave)).trans (hprint paths w₁)

/-! ### Reports -/

/-- A text that is written stands in its file. -/
theorem read_of_writeText {σ : Type} [Files (StateM σ)] [StoreMachine σ] {p : Path} {text : String}
    {m m' : σ} (h : runOn (writeText p text) m = (.ok (), m')) :
    (store m').read p = .ok text.toUTF8 := by
  obtain ⟨t, ht, rfl⟩ := runOn_writeFile_eq_ok.mp h
  rw [StoreMachine.store_withStore]
  exact Store.read_of_write ht

/-- A report that is written stands in its file. -/
theorem read_of_write_report {σ : Type} [Files (StateM σ)] [StoreMachine σ] {r : Report}
    {target : Path} {m m' : σ} (h : runOn (r.write target) m = (.ok (), m')) :
    (store m').read target = .ok r.document.toUTF8 := by
  rw [Report.write] at h
  -- Directories are made first where the path has any, and the file is written in either case.
  cases hparent : target.parent? with
  | none =>
    rw [hparent] at h
    exact read_of_writeText h
  | some above =>
    rw [hparent] at h
    simp only at h
    split at h
    · exact read_of_writeText h
    · obtain ⟨⟨⟩, m₁, -, h₁⟩ := runOn_bind_eq_ok.mp h
      exact read_of_writeText h₁

/-- A report that is delivered stands in its file. -/
theorem read_of_deliver {r : Report} {target : Path} {w w' : Workbench}
    (h : runOn (r.deliver target) w = (.ok (), w')) :
    w'.store.read target = .ok r.document.toUTF8 := by
  rw [Report.deliver] at h
  obtain ⟨⟨⟩, w₁, hwrite, h₁⟩ := runOn_bind_eq_ok.mp h
  rw [runOn_during_eq_ok] at hwrite
  obtain ⟨⟨⟩, w₂, hsaid, h₂⟩ := runOn_bind_eq_ok.mp h₁
  obtain ⟨w₂', hsay, hstore⟩ := runOn_say s!"✓ Report generated: {target.text}" w₁
  obtain ⟨-, rfl⟩ := Prod.mk.inj (hsay.symm.trans hsaid)
  obtain ⟨-, rfl⟩ := Prod.mk.inj h₂
  -- The headline is printed last and does not touch the files.
  change w₂'.store.read target = _
  rw [hstore]
  exact read_of_write_report hwrite

/-- A report that can be written is delivered. -/
theorem runOn_deliver_of_ok {r : Report} {target : Path} {w w₁ : Workbench}
    (h : runOn (r.write target) w = (.ok (), w₁)) :
    ∃ w', runOn (r.deliver target) w = (.ok (), w') := by
  obtain ⟨w₂, hsay, -⟩ := runOn_say s!"✓ Report generated: {target.text}" w₁
  refine ⟨{ w₂ with printed := w₂.printed ++ r.headline }, ?_⟩
  rw [Report.deliver]
  refine (runOn_bind_of_ok (runOn_during_eq_ok.mpr h)).trans ?_
  exact runOn_bind_of_ok hsay

end PinnedBench
