import PinnedBench.Random.Noise

/-!
# Rows of draws

A row of draws reads one source from one state on: it goes on where a shorter row has ended
(`draws_add`), and what is known of every draw of the source is known of every draw of a row
(`of_mem_draws`).
-/

namespace PinnedBench

variable {σ α : Type}

/-- What has been taken before stands in front and has no part in the draws. -/
theorem drawsOnto_eq (draw : σ → α × σ) (n : Nat) (s : σ) (taken : Array α) :
    drawsOnto draw n s taken =
      (taken ++ (drawsOnto draw n s #[]).1, (drawsOnto draw n s #[]).2) := by
  induction n generalizing s taken with
  | zero => simp [drawsOnto]
  | succ n ih =>
    -- Both rows go on from the state behind the first draw, with one draw taken more.
    rw [drawsOnto, drawsOnto, ih, ih (draw s).2 (Array.push #[] _)]
    simp

/-- A row is its first draw and the row from the state behind it. -/
theorem draws_succ (draw : σ → α × σ) (n : Nat) (s : σ) :
    draws draw (n + 1) s =
      ((draw s).1 :: (draws draw n (draw s).2).1, (draws draw n (draw s).2).2) := by
  rw [draws, drawsOnto, drawsOnto_eq]
  simp [draws]

/-- **A row of draws** goes on where a shorter one has ended. -/
theorem draws_add (draw : σ → α × σ) (n k : Nat) (s : σ) :
    draws draw (n + k) s =
      ((draws draw n s).1 ++ (draws draw k (draws draw n s).2).1,
        (draws draw k (draws draw n s).2).2) := by
  -- On the shorter row: every draw of it moves the state from which the rest is drawn.
  induction n generalizing s with
  | zero => rw [Nat.zero_add]; rfl
  | succ n ih => rw [Nat.succ_add, draws_succ, ih, draws_succ, List.cons_append]

/-- What is known of a draw from any state is known of every draw of a row. -/
theorem of_mem_draws {p : α → Prop} {draw : σ → α × σ} (h : ∀ s, p (draw s).1) {n : Nat} {s : σ}
    {z : α} (hz : z ∈ (draws draw n s).1) : p z := by
  -- The state is general, since each draw is made from the one that the draw before it has left.
  induction n generalizing s with
  | zero => cases hz
  | succ n ih =>
    rw [draws_succ] at hz
    cases hz with
    | head => exact h s
    | tail _ hz => exact ih hz

/-- A row that is asked for has draws. -/
theorem exists_mem_draws (draw : σ → α × σ) {n : Nat} (hn : 0 < n) (s : σ) :
    ∃ z, z ∈ (draws draw n s).1 := by
  apply List.exists_mem_of_length_pos
  rwa [length_draws]

end PinnedBench
