import Mathlib.Data.List.Forall2
import PinnedBench.Fault

/-!
# Outcomes that may be faults

Checks that depend on each other are put together in `Except`. A row of checks succeeds exactly when
each of them does (`bind_eq_ok`), and telling the fault of a check in other words does not change
when it succeeds (`mapError_eq_ok`). Items that are checked one by one succeed as a list when each
of them does (`mapM_eq_ok`), fail with the first of them that fails (`mapM_eq_error`), and are read
back as a list if their written forms are read back one by one (`mapM_map_eq_ok`).
-/

namespace PinnedBench

variable {ε δ α β : Type}

/-- Checks in a row succeed exactly when each of them does. -/
theorem bind_eq_ok {x : Except ε α} {f : α → Except ε β} {b : β} :
    x >>= f = .ok b ↔ ∃ a, x = .ok a ∧ f a = .ok b := by
  cases x <;> simp [bind, Except.bind]

@[simp]
theorem mapError_ok (f : ε → δ) (a : α) : (Except.ok a : Except ε α).mapError f = .ok a := rfl

/-- A fault is told in other words. -/
@[simp]
theorem mapError_error (f : ε → δ) (e : ε) :
    (Except.error e : Except ε α).mapError f = .error (f e) := rfl

/-- Telling faults in other words does not change what succeeds. -/
theorem mapError_eq_ok {f : ε → δ} {x : Except ε α} {a : α} : x.mapError f = .ok a ↔ x = .ok a := by
  cases x <;> simp

/-- The fault that is told is that of the check in other words. -/
theorem mapError_eq_error {f : ε → δ} {x : Except ε α} {d : δ} :
    x.mapError f = .error d ↔ ∃ e, x = .error e ∧ f e = d := by
  cases x <;> simp

/-- A result that is changed comes from one that is not. -/
theorem map_eq_ok {f : α → β} {x : Except ε α} {b : β} :
    x.map f = .ok b ↔ ∃ a, x = .ok a ∧ f a = b := by
  cases x <;> simp [Except.map]

theorem map_eq_error {f : α → β} {x : Except ε α} {e : ε} :
    x.map f = .error e ↔ x = .error e := by
  cases x <;> simp [Except.map]

/-- A list of checks succeeds exactly when each of them does. -/
theorem mapM_eq_ok {f : α → Except ε β} {as : List α} {bs : List β} :
    as.mapM f = .ok bs ↔ List.Forall₂ (fun a b => f a = .ok b) as bs := by
  induction as generalizing bs with
  | nil => cases bs <;> simp [pure, Except.pure]
  | cons a as ih =>
    rw [List.mapM_cons, bind_eq_ok]
    constructor
    · rintro ⟨b, hb, h⟩
      obtain ⟨bs', hbs, h⟩ := bind_eq_ok.mp h
      obtain rfl := Except.ok.inj h
      exact .cons hb (ih.mp hbs)
    · intro h
      cases h with
      | cons hb hbs => exact ⟨_, hb, bind_eq_ok.mpr ⟨_, ih.mpr hbs, rfl⟩⟩

/-- A list of checks succeeds as a whole exactly when none of them fails. -/
theorem exists_mapM_eq_ok {f : α → Except ε β} {as : List α} :
    (∃ bs, as.mapM f = .ok bs) ↔ ∀ a ∈ as, ∃ b, f a = .ok b := by
  simp only [mapM_eq_ok]
  induction as with
  | nil => simp
  | cons a as ih =>
    rw [List.forall_mem_cons, ← ih]
    constructor
    · rintro ⟨_, h⟩
      cases h with
      | cons hb hbs => exact ⟨⟨_, hb⟩, ⟨_, hbs⟩⟩
    · rintro ⟨⟨b, hb⟩, ⟨bs, hbs⟩⟩
      exact ⟨b :: bs, .cons hb hbs⟩

/-- Checks in a row fail with the first of them, or else with the second. -/
theorem bind_eq_error {x : Except ε α} {f : α → Except ε β} {e : ε} :
    x >>= f = .error e ↔ x = .error e ∨ ∃ a, x = .ok a ∧ f a = .error e := by
  cases x <;> simp [bind, Except.bind]

/-- **The first check that fails** decides about a list of checks. -/
theorem mapM_eq_error {f : α → Except ε β} {as : List α} {e : ε} :
    as.mapM f = .error e ↔
      ∃ before a behind, as = before ++ a :: behind ∧ (∀ a' ∈ before, ∃ b, f a' = .ok b) ∧
        f a = .error e := by
  induction as with
  | nil => simp [pure, Except.pure]
  | cons a as ih =>
    rw [List.mapM_cons, bind_eq_error]
    constructor
    · rintro (ha | ⟨b, hb, h⟩)
      · exact ⟨[], a, as, rfl, by simp, ha⟩
      · -- The first check succeeds, so the fault is one of the others.
        have hrest : as.mapM f = .error e := by
          rcases bind_eq_error.mp h with hrest | ⟨bs, -, hpure⟩
          · exact hrest
          · cases hpure
        obtain ⟨before, a', behind, rfl, hbefore, ha'⟩ := ih.mp hrest
        refine ⟨a :: before, a', behind, rfl, ?_, ha'⟩
        exact List.forall_mem_cons.mpr ⟨⟨b, hb⟩, hbefore⟩
    · rintro ⟨before, a', behind, has, hbefore, ha'⟩
      cases before with
      | nil =>
        obtain ⟨rfl, rfl⟩ := List.cons.inj has
        exact .inl ha'
      | cons x before =>
        obtain ⟨rfl, rfl⟩ := List.cons.inj has
        obtain ⟨⟨b, hb⟩, hbefore⟩ := List.forall_mem_cons.mp hbefore
        have hrest := ih.mpr ⟨before, a', behind, rfl, hbefore, ha'⟩
        exact .inr ⟨b, hb, bind_eq_error.mpr (.inl hrest)⟩

/-- Reading the written forms of items gives the items if each of them is read back. -/
theorem mapM_map_eq_ok {write : α → β} {read : β → Except ε α} {as : List α}
    (h : ∀ a ∈ as, read (write a) = .ok a) : (as.map write).mapM read = .ok as := by
  induction as with
  | nil => rfl
  | cons a as ih =>
    rw [List.map_cons, List.mapM_cons, h a List.mem_cons_self,
      ih fun a' ha' => h a' (List.mem_cons_of_mem _ ha')]
    rfl

end PinnedBench
