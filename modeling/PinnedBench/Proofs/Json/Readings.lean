import PinnedBench.Proofs.Decimal.Texts
import PinnedBench.Proofs.Json.Values

/-!
# Readings with a condition

Some values are written in a form that is not read again: a number that is not finite is written as
nothing, and nothing is no number. `ReadsWhen p x a` says where that happens and where not: the
reading `x` gives `a` if `p` holds, and fails otherwise, so it never gives another value.

Conditions add up along the steps of a reading (`ReadsWhen.bind`), along the items of a list
(`Decoder.reads_list`) and along entries (`Decoder.reads_keyed`). For free values the condition is
their depth: a value is read again with exactly the levels of nesting that it has
(`Json.Proper.reads`).
-/

namespace PinnedBench

variable {ε δ α β : Type}

/-- A reading that gives a value if a condition holds, and fails if it does not. -/
structure ReadsWhen (p : Prop) (x : Except ε α) (a : α) : Prop where
  /-- Under the condition the value is read. -/
  eq_ok : p → x = .ok a
  /-- Nothing is read without the condition. -/
  holds : ∀ {b : α}, x = .ok b → p

namespace ReadsWhen

variable {p q : Prop} {x : Except ε α} {a : α} {f : α → Except ε β} {b : β}

/-- The condition is exact. -/
theorem eq_ok_iff (h : ReadsWhen p x a) : x = .ok a ↔ p := ⟨h.holds, h.eq_ok⟩

/-- No other value is read. -/
theorem eq_of_ok (h : ReadsWhen p x a) {a' : α} (hx : x = .ok a') : a' = a := by
  rw [h.eq_ok (h.holds hx)] at hx
  exact (Except.ok.inj hx).symm

/-- Without the condition the reading fails. -/
theorem eq_error (h : ReadsWhen p x a) (hp : ¬p) : ∃ e, x = .error e := by
  cases hx : x with
  | error e => exact ⟨e, rfl⟩
  | ok a' => exact absurd (h.holds hx) hp

/-- The condition may be put in another way. -/
theorem congr (h : ReadsWhen p x a) (hpq : p ↔ q) : ReadsWhen q x a :=
  ⟨fun hq => h.eq_ok (hpq.mpr hq), fun hx => hpq.mp (h.holds hx)⟩

/-- A reading that always succeeds. -/
theorem of_ok (h : x = .ok a) : ReadsWhen True x a := ⟨fun _ => h, fun _ => trivial⟩

/-- **Two steps** read under both conditions. -/
theorem bind (hx : ReadsWhen p x a) (hf : ReadsWhen q (f a) b) : ReadsWhen (p ∧ q) (x >>= f) b := by
  constructor
  · rintro ⟨hp, hq⟩
    exact bind_eq_ok.mpr ⟨a, hx.eq_ok hp, hf.eq_ok hq⟩
  · intro b' hb'
    obtain ⟨a', ha', hb'⟩ := bind_eq_ok.mp hb'
    -- The first step has read the value that the second one is about.
    rw [hx.eq_of_ok ha'] at hb'
    exact ⟨hx.holds ha', hf.holds hb'⟩

/-- A step that reads anyway leaves what follows it. -/
@[simp]
theorem ok_bind (a : α) (f : α → Except ε β) : (Except.ok a >>= f) = f a := rfl

/-- The last step of a reading. -/
theorem last (hx : ReadsWhen p x a) {g : α → β} : ReadsWhen p (x >>= fun a => .ok (g a)) (g a) :=
  (hx.bind (f := fun a => .ok (g a)) (of_ok rfl)).congr (and_iff_left trivial)

/-- A value that is changed behind the reading. -/
theorem map (hx : ReadsWhen p x a) (g : α → β) : ReadsWhen p (x.map g) (g a) := by
  have hlast := @last _ _ _ _ _ _ hx g
  cases x <;> exact hlast

/-- Errors may be renamed. -/
theorem mapError (hx : ReadsWhen p x a) (g : ε → δ) : ReadsWhen p (x.mapError g) a :=
  ⟨fun hp => mapError_eq_ok.mpr (hx.eq_ok hp), fun h => hx.holds (mapError_eq_ok.mp h)⟩

/-- **Items** that are read under conditions are read as a list under all of them. -/
theorem mapM {write : α → β} {read : β → Except ε α} {p : α → Prop} {as : List α}
    (h : ∀ a ∈ as, ReadsWhen (p a) (read (write a)) a) :
    ReadsWhen (∀ a ∈ as, p a) ((as.map write).mapM read) as := by
  induction as with
  | nil => exact (of_ok rfl).congr (by simp)
  | cons a as ih =>
    rw [List.map_cons, List.mapM_cons]
    refine ((h a List.mem_cons_self).bind (ih fun a' ha' => ?_).last).congr ?_
    · exact h a' (List.mem_cons_of_mem _ ha')
    · exact List.forall_mem_cons.symm

end ReadsWhen

/-! ### Numbers -/

/-- Doubles are written with a point or an exponent, so none is taken for a whole number. -/
theorem Double.whole_numeral (x : Double) : x.numeral.whole = false := by
  rw [numeral]
  split
  · rfl
  · rw [Json.decimalNumeral]
    split <;> rfl

namespace Json

/-! ### Decoders -/

namespace Decoder

/-- **A number** is read where it is finite. -/
theorem reads_double (x : Double) (levels : Nat) :
    ReadsWhen (x.isFinite = true) (double levels (ofDouble x).tree) x := by
  constructor
  · intro hfinite
    rw [ofDouble, if_pos hfinite, tree, if_pos hfinite]
    exact Double.toDouble_numeral hfinite
  · intro y hy
    by_contra hfinite
    -- Otherwise nothing is written, and nothing is no number.
    rw [ofDouble, if_neg hfinite, tree, double] at hy
    · nomatch hy
    · nofun

variable {d : Decoder α} {f : α → Json} {p : α → Prop} {levels : Nat}

/-- A list is read where all its items are. -/
theorem reads_list {as : List α} (h : ∀ a ∈ as, ReadsWhen (p a) (d levels (f a).tree) a) :
    ReadsWhen (∀ a ∈ as, p a) (d.list (levels + 1) (Json.array (as.map f)).tree) as := by
  rw [tree, itemTrees_eq_map, List.map_map, list]
  exact .mapM h

/-- A list of numbers is read where all of them are finite. -/
theorem reads_doubles (xs : List Double) (levels : Nat) :
    ReadsWhen (∀ x ∈ xs, x.isFinite = true) (list double (levels + 1) (ofDoubles xs).tree) xs :=
  reads_list fun x _ => reads_double x levels

/-- Members under keys that are texts. -/
theorem reads_members {read : Tree → Except Fault β} {write : β → Tree} {p : β → Prop}
    {members : List (String × β)}
    (h : ∀ m ∈ members, ReadsWhen (p m.2) (read (write m.2)) m.2) :
    ReadsWhen (∀ m ∈ members, p m.2)
      ((members.map fun m => (some m.1, write m.2)).mapM fun m => do
        .ok ((← textOf m.1), (← read m.2))) members := by
  refine @ReadsWhen.mapM _ _ _ (fun m : String × β => (some m.1, write m.2)) _
    (fun m => p m.2) members fun m hm => ?_
  exact (h m hm).last

/-- Entries are read where all their values are. -/
theorem reads_keyed {m : Keyed α}
    (h : ∀ e ∈ m.entries, ReadsWhen (p e.2) (d levels (f e.2).tree) e.2) :
    ReadsWhen (∀ e ∈ m.entries, p e.2) (d.keyed (levels + 1) (ofKeyed f m).tree) m := by
  have hentries := @reads_members _ (d levels) (fun v => (f v).tree) p m.entries h
  rw [ofKeyed, tree, memberTrees_eq_map, List.map_map, keyed]
  have hsorted : Keyed.ofList m.entries = m := by
    refine Keyed.ext ?_
    rw [Keyed.entries_ofList]
    exact @foldl_insertEntry _ [] m.entries m.sorted
  -- The entries stand in order already.
  have hlast := @ReadsWhen.last _ _ _ _ _ _ hentries Keyed.ofList
  rwa [hsorted] at hlast

/-- A value that may be missing is read like the value if it is not written as nothing. -/
theorem reads_orNull {q : Prop} {t : Tree} {a : α} (h : ReadsWhen q (d levels t) a)
    (hnull : t ≠ .null) : ReadsWhen q (d.orNull levels t) (some a) := by
  rw [orNull]
  · exact h.map some
  · exact hnull

/-- A value of an enumeration is read by its name. -/
theorem variant_tree {named : List (String × α)} {name : String} {a : α}
    (h : named.lookup name = some a) (levels : Nat) :
    variant named levels (Json.string name).tree = .ok a := by
  cases levels <;> simp [variant, tree, textOf, h, bind, Except.bind]

end Decoder

/-! ### Free values -/

mutual

/-- The number of nested arrays and objects of a value. -/
def depth : Json → Nat
  | .array items => itemsDepth items + 1
  | .object members => membersDepth members + 1
  | _ => 0

/-- The depth of the deepest item. -/
def itemsDepth : List Json → Nat
  | [] => 0
  | item :: items => max item.depth (itemsDepth items)

/-- The depth of the deepest member. -/
def membersDepth : List (String × Json) → Nat
  | [] => 0
  | (_, value) :: members => max value.depth (membersDepth members)

end

/-- The items are no deeper than a bound if none of them is. -/
theorem itemsDepth_le {items : List Json} {n : Nat} :
    itemsDepth items ≤ n ↔ ∀ item ∈ items, item.depth ≤ n := by
  induction items with
  | nil => simp [itemsDepth]
  | cons item items ih => rw [itemsDepth, Nat.max_le, ih, List.forall_mem_cons]

/-- The members are no deeper than a bound if none of them is. -/
theorem membersDepth_le {members : List (String × Json)} {n : Nat} :
    membersDepth members ≤ n ↔ ∀ m ∈ members, m.2.depth ≤ n := by
  induction members with
  | nil => simp [membersDepth]
  | cons m members ih =>
    obtain ⟨key, value⟩ := m
    rw [membersDepth, Nat.max_le, ih, List.forall_mem_cons]

/-- **A value as it is held**: whole numbers fit a word, signed or not, other numbers are finite,
and the members of an object stand in the order of their keys. -/
inductive Proper : Json → Prop where
  | null : Proper .null
  | boolean (b : Bool) : Proper (.boolean b)
  | integer {n : Int} (hlow : -2 ^ 63 ≤ n) (hhigh : n < 2 ^ 64) : Proper (.integer n)
  | real {x : Double} (h : x.isFinite = true) : Proper (.real x)
  | string (s : String) : Proper (.string s)
  | array {items : List Json} (h : ∀ item ∈ items, Proper item) : Proper (.array items)
  | object {members : List (String × Json)} (h : ∀ m ∈ members, Proper m.2)
      (hsorted : SortedEntries members) : Proper (.object members)

/-- A whole number that fits a word is read as a whole number. -/
theorem ofTree_integer {n : Int} (hlow : -2 ^ 63 ≤ n) (hhigh : n < 2 ^ 64) (levels : Nat) :
    ofTree levels (Json.integer n).tree = .ok (.integer n) := by
  have hword : (2 : Nat) ^ 64 = powerOfTwo 64 := rfl
  have hsigned : (2 : Nat) ^ 63 = powerOfTwo 63 := rfl
  rw [tree, ofTree, integerNumeral, Numeral.value]
  by_cases hnegative : n < 0
  · have habs : n.natAbs ≠ 0 ∧ n.natAbs ≤ powerOfTwo 63 := by omega
    simp [hnegative, habs, abs_of_neg hnegative]
  · have habs : n.natAbs < powerOfTwo 64 := by omega
    simp [hnegative, habs, abs_of_nonneg (Int.not_lt.mp hnegative)]

/-- A finite number is read as a number that is not whole. -/
theorem ofTree_real {x : Double} (hfinite : x.isFinite = true) (levels : Nat) :
    ofTree levels (Json.real x).tree = .ok (.real x) := by
  rw [tree, if_pos hfinite, ofTree, Numeral.value, x.whole_numeral, Double.toDouble_numeral hfinite]
  simp [Except.map]

/-- A value without items and members is read at any level. -/
theorem reads_of_flat {j : Json} {levels : Nat} (hdepth : j.depth = 0)
    (hread : ofTree levels j.tree = .ok j) :
    ReadsWhen (j.depth ≤ levels) (ofTree levels j.tree) j :=
  (ReadsWhen.of_ok hread).congr (by simp [hdepth])

/-- **A free value** is read with as many levels as it is deep, and not with fewer. -/
theorem Proper.reads {j : Json} (h : j.Proper) (levels : Nat) :
    ReadsWhen (j.depth ≤ levels) (ofTree levels j.tree) j := by
  -- The induction is on what a proper value is, with the levels left open, as each one is used up
  -- on the way.
  induction h generalizing levels with
  | null => exact reads_of_flat (by simp [depth]) (by simp [tree, ofTree])
  | boolean b => exact reads_of_flat (by simp [depth]) (by simp [tree, ofTree])
  | integer hlow hhigh => exact reads_of_flat (by simp [depth]) (ofTree_integer hlow hhigh levels)
  | real h => exact reads_of_flat (by simp [depth]) (ofTree_real h levels)
  | string s => exact reads_of_flat (by simp [depth]) (ofTree_string s levels)
  | @array items _ ih =>
    rw [tree, itemTrees_eq_map, depth]
    cases levels with
    | zero => exact ⟨by simp, by simp [ofTree]⟩
    | succ levels =>
      -- One level is used up, and the items are read with the rest.
      have hitems := ReadsWhen.mapM fun item hitem => ih item hitem levels
      rw [ofTree, Nat.add_le_add_iff_right, itemsDepth_le]
      exact hitems.map Json.array
  | @object members _ hsorted ih =>
    rw [tree, memberTrees_eq_map, depth]
    cases levels with
    | zero => exact ⟨by simp, by simp [ofTree]⟩
    | succ levels =>
      have hmembers := @Decoder.reads_members _ (ofTree levels) tree (fun j => j.depth ≤ levels)
        members fun m hm => ih m hm levels
      -- The members stand in order already.
      have hfold : members.foldl (fun known e => insertEntry e.1 e.2 known) [] = members :=
        @foldl_insertEntry _ [] members hsorted
      have hlast := @ReadsWhen.last _ _ _ _ _ _ hmembers fun entries =>
        Json.object (entries.foldl (fun known e => insertEntry e.1 e.2 known) [])
      rw [ofTree, Nat.add_le_add_iff_right, membersDepth_le]
      rwa [hfold] at hlast

end Json

end PinnedBench
