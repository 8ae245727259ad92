import PinnedBench.Proofs.Json.Readings

/-!
# What reading gives

A document cannot hold a number that is not finite, and it cannot be nested deeper than its reader
goes. So every number that is read is finite, and a free value that is read is as a value is held
and no deeper than the levels it was read with (`Json.yields_ofTree`).

`Yields x p` says that the reading `x` gives nothing but values with the property `p`. It does not
say that anything is read.
-/

namespace PinnedBench

variable {ε δ α β : Type}

/-- A reading that gives only values with a property. -/
def Yields (x : Except ε α) (p : α → Prop) : Prop := ∀ a, x = .ok a → p a

namespace Yields

variable {x : Except ε α} {p : α → Prop} {f : α → Except ε β} {q : β → Prop}

/-- A value that has the property. -/
theorem ok {a : α} (h : p a) : Yields (.ok a : Except ε α) p := by
  intro a' ha'
  exact Except.ok.inj ha' ▸ h

/-- A reading that fails gives nothing. -/
theorem error {e : ε} : Yields (.error e : Except ε α) p := nofun

/-- The property of the first step is known in the second one. -/
theorem bind (hx : Yields x p) (hf : ∀ a, p a → Yields (f a) q) : Yields (x >>= f) q := by
  intro b hb
  obtain ⟨a, ha, hb⟩ := bind_eq_ok.mp hb
  exact hf a (hx a ha) b hb

/-- A step of which nothing has to be known. -/
theorem skip (hf : ∀ a, Yields (f a) q) : Yields (x >>= f) q := by
  intro b hb
  obtain ⟨a, -, hb⟩ := bind_eq_ok.mp hb
  exact hf a b hb

/-- A value that is changed has the property if the change gives it. -/
theorem map {g : α → β} (hx : Yields x fun a => q (g a)) : Yields (x.map g) q := by
  intro b hb
  cases x with
  | error e => cases hb
  | ok a => exact Except.ok.inj hb ▸ hx a rfl

/-- Errors do not matter. -/
theorem mapError {g : ε → δ} (hx : Yields x p) : Yields (x.mapError g) p :=
  fun a ha => hx a (mapError_eq_ok.mp ha)

/-- What every item gives, a list of items gives. -/
theorem mapM {read : β → Except ε α} {bs : List β} (h : ∀ b ∈ bs, Yields (read b) p) :
    Yields (bs.mapM read) fun as => ∀ a ∈ as, p a := by
  induction bs with
  | nil => exact ok (by simp)
  | cons b bs ih =>
    rw [List.mapM_cons]
    refine (h b List.mem_cons_self).bind fun a ha => ?_
    refine (ih fun b' hb' => h b' (List.mem_cons_of_mem _ hb')).bind fun as has => ?_
    exact ok (List.forall_mem_cons.mpr ⟨ha, has⟩)

end Yields

namespace Json

/-! ### Decoders -/

namespace Decoder

/-- **A number** that is read is finite. -/
theorem yields_double (levels : Nat) (t : Tree) :
    Yields (double levels t) fun x => x.isFinite = true := by
  unfold double
  split
  next n =>
    unfold Numeral.toDouble
    simp only
    split
    next hfinite => exact .ok hfinite
    next => exact .error
  next => exact .error

variable {d : Decoder α} {p : α → Prop}

/-- A value that may be missing has the property, if it is there. -/
theorem yields_orNull (h : ∀ levels t, Yields (d levels t) p) (levels : Nat) (t : Tree) :
    Yields (d.orNull levels t) fun o => ∀ a ∈ o, p a := by
  unfold orNull
  split
  · exact .ok nofun
  · exact .map fun a ha a' ha' => Option.some.inj ha' ▸ h _ _ a ha

/-- A list has what its items have. -/
theorem yields_list (h : ∀ levels t, Yields (d levels t) p) (levels : Nat) (t : Tree) :
    Yields (d.list levels t) fun as => ∀ a ∈ as, p a := by
  unfold list
  split
  · exact .error
  · exact .mapM fun t _ => h _ t
  · exact .error

/-- Members have what their values have. -/
theorem yields_members {read : Tree → Except Fault α} (h : ∀ t, Yields (read t) p)
    (members : List (Option String × Tree)) :
    Yields (members.mapM fun m => do .ok ((← textOf m.1), (← read m.2)))
      fun entries : List (String × α) => ∀ e ∈ entries, p e.2 := by
  refine @Yields.mapM _ _ _ (fun e : String × α => p e.2) _ members fun m _ => ?_
  refine .skip fun key => (h m.2).bind fun a ha => ?_
  exact .ok ha

/-- Entries have what their values have, in whichever order they are kept. -/
theorem yields_keyed (h : ∀ levels t, Yields (d levels t) p) (levels : Nat) (t : Tree) :
    Yields (d.keyed levels t) fun m => ∀ e ∈ m.entries, p e.2 := by
  unfold keyed
  split
  · exact .error
  next levels members =>
    refine Yields.bind (yields_members (h levels) members) fun entries hentries => ?_
    exact .ok fun e he => hentries e (Keyed.mem_of_mem_ofList he)
  · exact .error

end Decoder

namespace Fields

variable {d : Decoder α} {p : α → Prop}

/-- A field has what its decoder gives. -/
theorem yields_required (f : Fields) (name : String) (h : ∀ levels t, Yields (d levels t) p) :
    Yields (f.required name d) p := by
  unfold required
  split
  · exact h _ _
  · exact .error

/-- A field that may be left out has it as well, if its default does. -/
theorem yields_defaulted (f : Fields) (name : String) {a : α} (ha : p a)
    (h : ∀ levels t, Yields (d levels t) p) : Yields (f.defaulted name a d) p := by
  unfold defaulted
  split
  · exact h _ _
  · exact .ok ha

end Fields

/-! ### Free values -/

/-- A number is read as a whole number that fits a word, or as a finite one. -/
theorem Numeral.yields_value (n : Numeral) : Yields n.value fun j => j.Proper ∧ j.depth = 0 := by
  have hword : powerOfTwo 64 = 2 ^ 64 := rfl
  have hsigned : powerOfTwo 63 = 2 ^ 63 := rfl
  unfold Numeral.value
  split
  · exact .ok ⟨.integer (by omega) (by omega), by simp [depth]⟩
  · split
    · exact .ok ⟨.integer (by omega) (by omega), by simp [depth]⟩
    · have hdouble := Decoder.yields_double 0 (.number n)
      exact .map fun x hx => ⟨.real (hdouble x hx), by simp [depth]⟩

/-- **A free value** that is read is a proper one, and no deeper than its reader goes. -/
theorem yields_ofTree (levels : Nat) (t : Tree) :
    Yields (ofTree levels t) fun j => j.Proper ∧ j.depth ≤ levels := by
  -- The induction is on the levels, as items and members are read with one level less.
  induction levels using Nat.strongRecOn generalizing t with
  | ind levels ih =>
    cases t with
    | null =>
      rw [ofTree]
      exact .ok ⟨.null, by simp [depth]⟩
    | boolean b =>
      rw [ofTree]
      exact .ok ⟨.boolean b, by simp [depth]⟩
    | number n =>
      rw [ofTree]
      intro j hj
      -- A number has no depth, so it is read on any level.
      obtain ⟨hproper, hdepth⟩ := n.yields_value j hj
      exact ⟨hproper, by omega⟩
    | string s =>
      rw [ofTree]
      exact .map fun s _ => ⟨.string s, by simp [depth]⟩
    | array items =>
      cases levels with
      | zero => exact .error
      | succ levels =>
        rw [ofTree]
        have hitems := Yields.mapM fun item (_ : item ∈ items) => ih levels (by omega) item
        refine .map fun js hjs => ⟨.array fun j hj => (hitems js hjs j hj).1, ?_⟩
        rw [depth, Nat.add_le_add_iff_right, itemsDepth_le]
        exact fun j hj => (hitems js hjs j hj).2
    | object members =>
      cases levels with
      | zero => exact .error
      | succ levels =>
        rw [ofTree]
        refine Yields.bind (Decoder.yields_members (ih levels (by omega)) members)
          fun entries hentries => ?_
        -- Reading puts the members in the order of their keys.
        have hread := Keyed.entries_ofList entries
        have hmembers : ∀ e ∈ (Keyed.ofList entries).entries, e.2.Proper ∧ e.2.depth ≤ levels :=
          fun e he => hentries e (Keyed.mem_of_mem_ofList he)
        have hsorted := (Keyed.ofList entries).sorted
        rw [hread] at hmembers hsorted
        refine .ok ⟨.object (fun e he => (hmembers e he).1) hsorted, ?_⟩
        rw [depth, Nat.add_le_add_iff_right, membersDepth_le]
        exact fun e he => (hmembers e he).2

/-! ### Documents -/

/-- A document has what the decoder of its tree gives. -/
theorem yields_decodeText {d : Decoder α} {p : α → Prop} (h : ∀ levels t, Yields (d levels t) p)
    (text : String) : Yields (decodeText d text) p :=
  .skip fun t => h maxLevels t

/-- A free value that is read from a document. -/
theorem yields_ofText (text : String) :
    Yields (ofText text) fun j => j.Proper ∧ j.depth ≤ 127 :=
  .skip fun t => yields_ofTree maxLevels t

end Json

end PinnedBench
