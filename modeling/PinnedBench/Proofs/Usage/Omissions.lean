import Mathlib.Data.List.Basic
import PinnedBench.Command.Line
import PinnedBench.Proofs.Outcomes

/-!
# Items that are left out

What a command line does not say, its arguments do not say either. A word gives an item only if it
looks like the name of one (`WordForm.of`); a word of that look is never taken for the value of
another item. So arguments keep whatever is kept by all items that some word may name: this is an
invariant of reading (`Progress.Keeps`), kept by one word and by all of them, and
`CommandForm.keeps_of_readItems` states it for a command.

For reports it says that the two implementations are the standard ones unless an item for them is
given (`ReportArguments.standard_of_leavesOut`).
-/

namespace PinnedBench

variable {σ τ : Type} {P : σ → Prop}

/-- The item that a word of some form gives. -/
def WordForm.itemName? : WordForm → Option String
  | .long name _ => some name
  | .terminator | .short _ | .plain => none

/-- Words of which none gives an item with one of some names. -/
def LeavesOut (names words : List String) : Prop :=
  ∀ word ∈ words, ∀ name ∈ names, (WordForm.of word).itemName? ≠ some name

instance (names words : List String) : Decidable (LeavesOut names words) :=
  inferInstanceAs (Decidable (∀ word ∈ words, ∀ name ∈ names,
    (WordForm.of word).itemName? ≠ some name))

/-! ### Items -/

/-- An effect that keeps a property of the arguments. -/
def Effect.Keeps (P : σ → Prop) : Effect σ → Prop
  | .flag set => ∀ s, P s → P (set s)
  | .value set => ∀ text s t, P s → set text s = .ok t → P t

/-- Setting what is read keeps a property if setting any value does. -/
theorem Effect.keeps_reading {α : Type} {read : String → Except ValueFault α} {set : α → σ → σ}
    (h : ∀ a s, P s → P (set a s)) :
    (Effect.value fun text s => (read text).map fun a => set a s).Keeps P := by
  intro text s t hs ht
  obtain ⟨a, -, rfl⟩ := map_eq_ok.mp ht
  exact h a s hs

namespace Item

/-- An item that keeps a property of the arguments. -/
def Keeps (P : σ → Prop) (i : Item σ) : Prop := i.effect.Keeps P

/-- An item of a part keeps what holds of the part. -/
theorem Keeps.within {i : Item σ} (h : i.Keeps P) {get : τ → σ} {put : σ → τ → τ}
    (hget : ∀ s t, get (put s t) = s) : (i.within get put).Keeps fun t => P (get t) := by
  unfold Keeps Item.within
  unfold Keeps at h
  cases heffect : i.effect with
  | flag set =>
    rw [heffect] at h
    intro t ht
    rw [hget]
    exact h _ ht
  | value set =>
    rw [heffect] at h
    intro text t t' ht ht'
    obtain ⟨s, hs, rfl⟩ := map_eq_ok.mp ht'
    rw [hget]
    exact h text _ s ht hs

/-- An item of a part keeps what does not concern the part. -/
theorem keeps_within_of_other {Q : τ → Prop} (i : Item σ) {get : τ → σ} {put : σ → τ → τ}
    (hput : ∀ s t, Q t → Q (put s t)) : (i.within get put).Keeps Q := by
  unfold Keeps Item.within
  cases i.effect with
  | flag set => exact fun t ht => hput _ t ht
  | value set =>
    intro text t t' ht ht'
    obtain ⟨s, -, rfl⟩ := map_eq_ok.mp ht'
    exact hput s t ht

end Item

/-! ### Progress -/

namespace Progress

variable {p q : Progress σ}

/-- **Arguments with a property**, which the last item keeps as well. -/
structure Keeps (P : σ → Prop) (p : Progress σ) : Prop where
  /-- The arguments have the property, -/
  arguments : P p.arguments
  /-- and setting the item that waits for its value does not take it away. -/
  pending : ∀ last ∈ p.pending, (Effect.value last.set).Keeps P

/-- Noting that an item was given does not touch the arguments. -/
theorem Keeps.mark (hp : p.Keeps P) {name : String} (h : p.mark name = .ok q) : q.Keeps P := by
  unfold Progress.mark at h
  split at h
  · cases h
  · cases h
    exact ⟨hp.arguments, hp.pending⟩

/-- Settling the item that waits sets its value, which keeps the property. -/
theorem Keeps.settle (hp : p.Keeps P) (h : p.settle = .ok q) : q.Keeps P := by
  unfold Progress.settle at h
  split at h
  · cases h
    exact hp
  · cases h
  · next item set value hpending =>
    obtain ⟨p', hmark, h⟩ := bind_eq_ok.mp h
    have hset := hp.pending _ hpending
    split at h
    · next arguments harguments =>
      cases h
      exact ⟨hset value _ _ (hp.mark hmark).arguments harguments, by simp⟩
    · cases h
    · cases h

/-- An item that begins settles the one before it, and sets its flag or waits in turn. -/
theorem Keeps.begin (hp : p.Keeps P) {item : Item σ} (hitem : item.Keeps P)
    {attached : Option String} (h : p.begin item attached = .ok q) : q.Keeps P := by
  unfold Item.Keeps at hitem
  unfold Progress.begin at h
  cases heffect : item.effect with
  | flag set =>
    rw [heffect] at h hitem
    cases attached with
    | some value => cases h
    | none =>
      obtain ⟨p₁, hsettle, h⟩ := bind_eq_ok.mp h
      obtain ⟨p₂, hmark, h⟩ := bind_eq_ok.mp h
      cases h
      have hp₂ := (hp.settle hsettle).mark hmark
      exact ⟨hitem _ hp₂.arguments, hp₂.pending⟩
  | value set =>
    rw [heffect] at h hitem
    obtain ⟨p₁, hsettle, h⟩ := bind_eq_ok.mp h
    have hnext : Keeps P { p₁ with pending := some ⟨item, set, attached⟩ } := by
      refine ⟨(hp.settle hsettle).arguments, fun last hlast => ?_⟩
      obtain rfl := Option.some.inj hlast
      exact hitem
    -- With a value attached, the item is settled at once.
    split at h
    · exact hnext.settle h
    · cases h
      exact hnext

/-- A value that is supplied is kept with its item, and set later. -/
theorem Keeps.supply (hp : p.Keeps P) {word : String} (h : p.supply word = .ok q) : q.Keeps P := by
  unfold Progress.supply at h
  split at h
  · next item set hpending =>
    cases h
    refine ⟨hp.arguments, fun last hlast => ?_⟩
    obtain rfl := Option.some.inj hlast
    exact hp.pending ⟨item, set, none⟩ hpending
  · cases h

/-- Words that ask for help or the version give no arguments. -/
theorem stop_ne_ok (command : Option String) : p.stop command ≠ .ok q := by
  intro h
  obtain ⟨p', -, h⟩ := bind_eq_ok.mp h
  cases h

end Progress

/-! ### Words -/

section Words

variable {command : String} {items : List (Item σ)} {p q : Progress σ}

/-- The items that a word may name keep a property. -/
def MayNameKeeping (P : σ → Prop) (items : List (Item σ)) (word : String) : Prop :=
  ∀ name value, WordForm.of word = .long name value →
    ∀ i ∈ items, i.named name = true → i.Keeps P

/-- **One word** keeps what the items keep that it may name. -/
theorem takeWord_keeps (hp : p.Keeps P) {word : String}
    (hitems : MayNameKeeping P items word) (h : takeWord command items p word = .ok q) :
    q.Keeps P := by
  unfold takeWord at h
  -- The only words that begin an item are long names.
  cases hform : WordForm.of word with
  | long name value =>
    rw [hform] at h
    simp only at h
    split at h
    · split at h
      · cases h
      · exact absurd h (Progress.stop_ne_ok _)
    · split at h
      · next item hitem =>
        have hnamed : item.named name = true := List.find?_some hitem
        exact hp.begin (hitems name value hform item (List.mem_of_find?_eq_some hitem) hnamed) h
      · cases h
  | short letters =>
    rw [hform] at h
    simp only at h
    split at h
    · exact hp.supply h
    · split at h
      · exact absurd h (Progress.stop_ne_ok _)
      · cases h
  | terminator | plain =>
    rw [hform] at h
    exact hp.supply h

/-- **All words** keep what the items keep that one of them may name. -/
theorem readWords_keeps {words : List String} (hp : p.Keeps P)
    (hitems : ∀ word ∈ words, MayNameKeeping P items word)
    (h : readWords command items p words = .ok q) : q.Keeps P := by
  -- The induction is on the words, with the progress so far left open.
  induction words generalizing p with
  | nil => exact hp.settle h
  | cons word rest ih =>
    unfold readWords at h
    split at h
    · split at h
      · exact hp.settle h
      · cases h
    · obtain ⟨next, hword, hrest⟩ := bind_eq_ok.mp h
      have hnext := takeWord_keeps hp (hitems word List.mem_cons_self) hword
      exact ih hnext (fun w hw => hitems w (List.mem_cons_of_mem word hw)) hrest

/-- The arguments keep what holds of those to start with and what no item takes away. -/
theorem readItems_keeps {words : List String} {start s : σ} (hstart : P start)
    (hitems : ∀ word ∈ words, MayNameKeeping P items word)
    (h : readItems command items start words = .ok s) : P s := by
  obtain ⟨p, hwords, h⟩ := bind_eq_ok.mp h
  have hp := readWords_keeps (p := .start start) ⟨hstart, by simp [Progress.start]⟩ hitems hwords
  split at h
  · cases h
  · cases h
    exact hp.arguments

end Words

/-! ### Commands -/

namespace CommandForm

variable {name help : String} {items : List (Item σ)} {standard : σ} {make : σ → Command}

/-- The items of a command, and the flag of the program behind them. -/
def allItems (items : List (Item σ)) : List (Item (σ × Bool)) :=
  items.map (Item.within Prod.fst fun s (_, debug) => (s, debug)) ++
    [debugItem.within Prod.snd fun debug (s, _) => (s, debug)]

/-- A form makes a command of its own from the arguments that it reads. -/
theorem read_eq_ok {before : Bool} {words : List String} {i : Invocation}
    (h : (of name help items standard make).read before words = .ok i) :
    ∃ s debug, i.command = make s ∧
      readItems name (allItems items) (standard, false) words = .ok (s, debug) := by
  obtain ⟨⟨s, debug⟩, hread, h⟩ := bind_eq_ok.mp h
  cases h
  exact ⟨s, debug, rfl, hread⟩

/-- **The arguments of a command** keep what its items keep, but for items that are left out. -/
theorem keeps_of_readItems {words names : List String} {s : σ} {debug : Bool}
    (hstandard : P standard) (hleft : LeavesOut names words)
    (hitems : ∀ item ∈ items, item.secondName = none ∧ (item.name ∈ names ∨ item.Keeps P))
    (h : readItems name (allItems items) (standard, false) words = .ok (s, debug)) : P s := by
  refine readItems_keeps (P := fun t => P t.1) hstandard ?_ h
  intro word hword n value hform item hitem hnamed
  rw [allItems, List.mem_append, List.mem_map, List.mem_singleton] at hitem
  obtain ⟨own, hown, rfl⟩ | rfl := hitem
  · obtain ⟨hsecond, hname | hkeeps⟩ := hitems own hown
    · -- The item is one of those that are left out.
      have hn : own.name = n := by
        simpa [Item.named, Item.within, hsecond] using hnamed
      have hgiven : (WordForm.of word).itemName? = some n := by
        rw [hform]
        rfl
      exact absurd hgiven (hleft word hword n (hn ▸ hname))
    · exact hkeeps.within fun _ _ => rfl
  · exact Item.keeps_within_of_other _ fun _ _ ht => ht

end CommandForm

/-- A command that is read is read by its form, from some of the words. -/
theorem Invocation.form_of_read {debug : Bool} {words : List String} {i : Invocation}
    (h : Invocation.read debug words = .ok i) :
    ∃ form ∈ CommandForm.all, ∃ before rest, rest ⊆ words ∧ form.read before rest = .ok i := by
  -- The induction is on the words. Only the flag for debugging is passed over; any other word that
  -- comes before the name of a command ends the reading.
  induction words generalizing debug with
  | nil => cases h
  | cons word rest ih =>
    unfold Invocation.read at h
    split at h
    · cases h
    · split at h
      · cases h
      · split at h
        · cases h
        · split at h
          · cases h
          · split at h
            · cases h
            · obtain ⟨form, hform, before, words, hwords, hread⟩ := ih h
              exact ⟨form, hform, before, words, fun w hw => List.mem_cons_of_mem _ (hwords hw),
                hread⟩
    · split at h <;> cases h
    · split at h
      · cases h
      · split at h
        · next form hform =>
          exact ⟨form, List.mem_of_find?_eq_some hform, debug, rest, List.subset_cons_self _ _, h⟩
        · cases h

namespace ReportArguments

/-- The names of the items that say which implementations a report is about. -/
def labelNames : List String :=
  ["baseline-impl", "baseline-variant", "optimized-impl", "optimized-variant"]

/-- The arguments are about the standard implementations. -/
def HasStandardLabels (a : ReportArguments) : Prop :=
  a.baseline = standard.baseline ∧ a.optimized = standard.optimized

/-- The other items have nothing to do with the implementations. -/
theorem keeps_items : ∀ item ∈ items,
    item.secondName = none ∧ (item.name ∈ labelNames ∨ item.Keeps HasStandardLabels) := by
  unfold items
  simp only [List.forall_mem_cons]
  refine ⟨⟨rfl, .inr ?_⟩, ⟨rfl, .inr ?_⟩, ⟨rfl, .inr ?_⟩, ⟨rfl, .inr ?_⟩, ⟨rfl, .inr ?_⟩,
    ⟨rfl, .inl (by decide)⟩, ⟨rfl, .inl (by decide)⟩, ⟨rfl, .inl (by decide)⟩,
    ⟨rfl, .inl (by decide)⟩, ⟨rfl, .inr ?_⟩, by simp⟩
  all_goals exact Effect.keeps_reading fun _ _ ha => ha

/-- **A report on no other implementations** is one on the standard ones. -/
theorem standard_of_leavesOut {words : List String} {a : ReportArguments} {debug : Bool}
    (h : Invocation.ofWords words = .ok ⟨.report a, debug⟩) (hleft : LeavesOut labelNames words) :
    a.HasStandardLabels := by
  obtain ⟨form, hform, before, rest, hrest, hread⟩ := Invocation.form_of_read h
  have hleft' : LeavesOut labelNames rest := fun word hword => hleft word (hrest hword)
  simp only [CommandForm.all, List.mem_cons, List.not_mem_nil, or_false] at hform
  -- Only the form of reports reads a report.
  rcases hform with rfl | rfl | rfl | rfl | rfl
  all_goals obtain ⟨s, d, hs, hitems⟩ := CommandForm.read_eq_ok hread
  all_goals cases hs
  exact CommandForm.keeps_of_readItems ⟨rfl, rfl⟩ hleft' keeps_items hitems

end ReportArguments

end PinnedBench
