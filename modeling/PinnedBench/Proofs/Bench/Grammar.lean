import PinnedBench.Proofs.Bench.Implementations
import PinnedBench.Proofs.Text.Pieces

/-!
# The grammar of lists of implementations

A list of implementations is read by splitting it at its commas, trimming the entries, and splitting
each at its hyphen. What this accepts is a grammar (`Implementation.Written`): entries between
commas, each of them blank, or the two names of an implementation around a hyphen with blanks at the
outside. A name must not be empty and has neither a hyphen nor a comma; blanks inside of the two
names belong to them, but the first does not begin with one and the second does not end with one
(`Implementation.Writable`).

The list is read as what has been written in it (`Implementation.parseList_eq_ok_iff`), and if it is
refused, then because of the first entry that is not blank and not of this form, or because all
entries are blank (`Implementation.parseList_eq_error`). `Implementation.parseList_grammar` puts
this together.
-/

namespace PinnedBench

namespace Implementation

variable {text : List Char} {i : Implementation}

/-! ### One entry -/

/-- An entry with one hyphen and text on both sides of it. -/
def Hyphenated (entry : List Char) : Prop :=
  entry.count '-' = 1 ∧
    ∃ before behind, before ≠ [] ∧ behind ≠ [] ∧ entry = before ++ '-' :: behind

/-- An implementation whose names can be joined by a hyphen. -/
structure Joinable (i : Implementation) : Prop where
  /-- There is a language. -/
  name_ne : i.name.toList ≠ []
  /-- There is a variant. -/
  variant_ne : i.variant.toList ≠ []
  /-- The language has no hyphen of its own, -/
  name_hyphen : '-' ∉ i.name.toList
  /-- nor has the variant, so the hyphen between them is the only one. -/
  variant_hyphen : '-' ∉ i.variant.toList

/-- An entry has one hyphen with text on both sides exactly if it is the written form of two names.
-/
theorem hyphenated_iff {entry : List Char} :
    Hyphenated entry ↔ ∃ i : Implementation, i.Joinable ∧ entry = i.chars := by
  constructor
  · rintro ⟨hcount, before, behind, hbefore, hbehind, rfl⟩
    -- The one hyphen is the one that stands between, so there is none on either side.
    have hnone : before.count '-' = 0 ∧ behind.count '-' = 0 := by
      rw [List.count_append, List.count_cons_self] at hcount
      omega
    refine ⟨⟨String.ofList before, String.ofList behind⟩, ⟨?_, ?_, ?_, ?_⟩, ?_⟩
    · simpa using hbefore
    · simpa using hbehind
    · simpa using List.count_eq_zero.mp hnone.1
    · simpa using List.count_eq_zero.mp hnone.2
    · simp [chars]
  · rintro ⟨i, h, rfl⟩
    refine ⟨?_, i.name.toList, i.variant.toList, h.name_ne, h.variant_ne, rfl⟩
    unfold chars
    rw [List.count_append, List.count_cons_self, List.count_eq_zero.mpr h.name_hyphen,
      List.count_eq_zero.mpr h.variant_hyphen]

/-- **An entry is read** as the implementation whose written form it is, blanks apart. -/
theorem parse_eq_ok : parse text = .ok i ↔ i.Joinable ∧ trim text = i.chars := by
  constructor
  · intro h
    refine ⟨?_, trim_eq_chars h⟩
    unfold parse at h
    split at h
    next name variant hsplit =>
      split at h
      next => cases h
      next hsome =>
        obtain rfl := Except.ok.inj h
        -- The two pieces hold no hyphen, since the text has been split at every one.
        obtain ⟨-, hname, hvariant⟩ := splitOn_eq_pair_iff.mp hsplit
        rw [Bool.or_eq_true, not_or, List.isEmpty_iff, List.isEmpty_iff] at hsome
        constructor <;> simp [hname, hvariant, hsome]
    next => cases h
  · rintro ⟨h, htrim⟩
    have hsplit : (trim text).splitOn '-' = [i.name.toList, i.variant.toList] :=
      splitOn_eq_pair_iff.mpr ⟨htrim, h.name_hyphen, h.variant_hyphen⟩
    unfold parse
    rw [hsplit]
    simp [h.name_ne, h.variant_ne]

/-- An entry is read as something exactly if it has the form. -/
theorem exists_parse_eq_ok : (∃ i, parse text = .ok i) ↔ Hyphenated (trim text) := by
  simp only [parse_eq_ok]
  exact hyphenated_iff.symm

/-- Reading an entry fails in one way only. -/
theorem fault_of_parse {fault : ImplementationFault} (h : parse text = .error fault) :
    fault = .form (String.ofList (trim text)) := by
  unfold parse at h
  split at h
  next =>
    split at h
    next => exact (Except.error.inj h).symm
    next => cases h
  next => exact (Except.error.inj h).symm

/-- **An entry is refused** for its form, with the text between the blanks. -/
theorem parse_eq_error {fault : ImplementationFault} :
    parse text = .error fault ↔
      ¬Hyphenated (trim text) ∧ fault = .form (String.ofList (trim text)) := by
  rw [← exists_parse_eq_ok]
  constructor
  · intro h
    refine ⟨?_, fault_of_parse h⟩
    rintro ⟨i, hok⟩
    cases h.symm.trans hok
  · -- Without the form nothing can be read, and the only fault there is is this one.
    rintro ⟨hnone, rfl⟩
    cases h : parse text with
    | ok i => exact absurd ⟨i, h⟩ hnone
    | error fault => rw [fault_of_parse h]

/-! ### Written lists -/

/-- An implementation that can be written in a list. -/
structure Writable (i : Implementation) : Prop extends Joinable i where
  /-- The language has no comma, which would end the entry, -/
  name_comma : ',' ∉ i.name.toList
  /-- nor has the variant. -/
  variant_comma : ',' ∉ i.variant.toList
  /-- The language does not begin with a blank, which would be taken off, -/
  name_head : ∀ c, i.name.toList.head? = some c → isBlank c = false
  /-- and the variant does not end with one. -/
  variant_last : ∀ c, i.variant.toList.getLast? = some c → isBlank c = false

/-- The written form is trimmed if the first name does not begin with a blank and the second does
not end with one. -/
theorem Joinable.trimmed_iff (h : i.Joinable) :
    Trimmed i.chars ↔ (∀ c, i.name.toList.head? = some c → isBlank c = false) ∧
      ∀ c, i.variant.toList.getLast? = some c → isBlank c = false := by
  -- Neither name is empty, so the written form begins as the first and ends as the second.
  have hhead : i.chars.head? = i.name.toList.head? := List.head?_append_of_ne_nil _ h.name_ne
  have hlast : i.chars.getLast? = i.variant.toList.getLast? := by
    unfold chars
    rw [List.getLast?_append_cons, List.getLast?_cons_of_ne_nil h.variant_ne]
  constructor
  · intro htrimmed
    exact ⟨hhead ▸ htrimmed.head, hlast ▸ htrimmed.last⟩
  · rintro ⟨hname, hvariant⟩
    exact ⟨hhead ▸ hname, hlast ▸ hvariant⟩

/-- A comma in the written form is in one of the two names. -/
theorem comma_mem_chars : ',' ∈ i.chars ↔ ',' ∈ i.name.toList ∨ ',' ∈ i.variant.toList := by
  unfold chars
  simp

/-- What can be written in a list are the names that an entry can be read as, if its written form is
trimmed and has no comma. -/
theorem writable_iff : i.Writable ↔ i.Joinable ∧ Trimmed i.chars ∧ ',' ∉ i.chars := by
  rw [comma_mem_chars, not_or]
  constructor
  · intro h
    have htrimmed := h.trimmed_iff.mpr ⟨h.name_head, h.variant_last⟩
    exact ⟨h.toJoinable, htrimmed, h.name_comma, h.variant_comma⟩
  · rintro ⟨h, htrimmed, hname, hvariant⟩
    obtain ⟨hhead, hlast⟩ := h.trimmed_iff.mp htrimmed
    exact ⟨h, hname, hvariant, hhead, hlast⟩

theorem Writable.trimmed (h : i.Writable) : Trimmed i.chars := (writable_iff.mp h).2.1

theorem Writable.comma (h : i.Writable) : ',' ∉ i.chars := (writable_iff.mp h).2.2

/-- Implementations are written as entries: any entry may be blank, and the others are the
implementations in their order, each possibly between blanks. -/
inductive Written : List (List Char) → List Implementation → Prop
  /-- No entries write no implementations. -/
  | done : Written [] []
  /-- A blank entry may come anywhere. -/
  | blank {entry entries is} : Blank entry → Written entries is → Written (entry :: entries) is
  /-- An implementation is an entry, between blanks. -/
  | entry {before behind i entries is} : Blank before → Blank behind → Written entries is →
      Written ((before ++ i.chars ++ behind) :: entries) (i :: is)

/-- A comma is no blank. -/
theorem comma_not_mem_of_blank {blanks : List Char} (h : Blank blanks) : ',' ∉ blanks := by
  intro hmem
  exact absurd (h ',' hmem) (by decide)

/-- No entry of a written list holds a comma, so a split at the commas finds the entries again. -/
theorem Written.comma {entries : List (List Char)} {is : List Implementation}
    (h : Written entries is) (hwritable : ∀ i ∈ is, i.Writable) :
    ∀ entry ∈ entries, ',' ∉ entry := by
  -- On how the list is written: blank entries have no comma, and the others only those of their
  -- names.
  induction h with
  | done => simp
  | blank hblank _ ih =>
    exact List.forall_mem_cons.mpr ⟨comma_not_mem_of_blank hblank, ih hwritable⟩
  | entry hbefore hbehind _ ih =>
    obtain ⟨hi, hwritable⟩ := List.forall_mem_cons.mp hwritable
    refine List.forall_mem_cons.mpr ⟨?_, ih hwritable⟩
    simp [comma_not_mem_of_blank hbefore, comma_not_mem_of_blank hbehind, hi.comma]

theorem entries_eq (text : List Char) : entries text = inked (text.splitOn ',') := rfl

/-- Reading the entries in which implementations are written gives the implementations. -/
theorem Written.forall₂ {pieces : List (List Char)} {is : List Implementation}
    (h : Written pieces is) (hwritable : ∀ i ∈ is, i.Writable) :
    List.Forall₂ (fun entry i => parse entry = .ok i) (inked pieces) is := by
  -- Blank entries are passed over on both sides.
  induction h with
  | done => exact .nil
  | blank hblank _ ih =>
    rw [inked_cons_of_blank (trim_eq_nil_iff.mpr hblank)]
    exact ih hwritable
  | @entry before behind i pieces is hbefore hbehind _ ih =>
    obtain ⟨hi, hwritable⟩ := List.forall_mem_cons.mp hwritable
    have htrim : trim (before ++ i.chars ++ behind) = i.chars :=
      trim_append hbefore hbehind hi.trimmed
    have hsome : i.chars ≠ [] := by simp [chars]
    rw [inked_cons_of_ne (by rwa [htrim])]
    exact .cons (parse_eq_ok.mpr ⟨hi.toJoinable, htrim⟩) (ih hwritable)

/-- Implementations that are read of entries are written in them. -/
theorem written_of_forall₂ {pieces : List (List Char)} {is : List Implementation}
    (h : List.Forall₂ (fun entry i => parse entry = .ok i) (inked pieces) is) :
    Written pieces is := by
  -- On the pieces; which of them are blank tells which rule has written them.
  induction pieces generalizing is with
  | nil =>
    cases h
    exact .done
  | cons entry pieces ih =>
    by_cases hblank : trim entry = []
    · rw [inked_cons_of_blank hblank] at h
      exact .blank (trim_eq_nil_iff.mp hblank) (ih h)
    · rw [inked_cons_of_ne hblank] at h
      cases h with
      | cons hread hrest =>
        obtain ⟨before, behind, hbefore, hbehind, hentry⟩ := exists_trim entry
        rw [hentry, trim_eq_chars hread]
        exact .entry hbefore hbehind (ih hrest)

/-- What is read of entries without commas can be written in a list. -/
theorem writable_of_forall₂ {pieces : List (List Char)} {is : List Implementation}
    (h : List.Forall₂ (fun entry i => parse entry = .ok i) pieces is)
    (hcomma : ∀ entry ∈ pieces, ',' ∉ entry) : ∀ i ∈ is, i.Writable := by
  induction h with
  | nil => simp
  | @cons entry i pieces is hread _ ih =>
    obtain ⟨hentry, hcomma⟩ := List.forall_mem_cons.mp hcomma
    obtain ⟨hjoinable, htrim⟩ := parse_eq_ok.mp hread
    have htrimmed : Trimmed i.chars := htrim ▸ trimmed_trim entry
    -- The written form is a part of its entry.
    have hchars : ',' ∉ i.chars := by
      rw [← htrim]
      intro hmem
      obtain ⟨before, behind, -, -, hsplit⟩ := exists_trim entry
      apply hentry
      rw [hsplit]
      simp [hmem]
    exact List.forall_mem_cons.mpr ⟨writable_iff.mpr ⟨hjoinable, htrimmed, hchars⟩, ih hcomma⟩

/-! ### Lists -/

/-- **A list is read** as what is written in it. -/
theorem parseList_eq_ok_iff {is : List Implementation} :
    parseList text = .ok is ↔
      is ≠ [] ∧ (∀ i ∈ is, i.Writable) ∧
        ∃ pieces, Written pieces is ∧ text = [','].intercalate pieces := by
  rw [parseList_eq_ok, entries_eq]
  constructor
  · rintro ⟨h, hsome⟩
    -- The pieces between the commas are the entries, with the blank ones among them.
    refine ⟨hsome, ?_, text.splitOn ',', written_of_forall₂ h, ?_⟩
    · refine writable_of_forall₂ h ?_
      intro entry hentry
      exact not_mem_of_mem_splitOn (mem_inked.mp hentry).1
    · exact (List.intercalate_splitOn ',').symm
  · rintro ⟨hsome, hwritable, pieces, hwritten, rfl⟩
    -- Something is written, so there are pieces, and joining them is undone by the split.
    have hne : pieces ≠ [] := by
      rintro rfl
      cases hwritten
      exact hsome rfl
    have hsplit : ([','].intercalate pieces).splitOn ',' = pieces :=
      List.splitOn_intercalate ',' (hwritten.comma hwritable) hne
    rw [hsplit]
    exact ⟨hwritten.forall₂ hwritable, hsome⟩

/-- **A list is refused** for the first entry that has not the form, or if it has no entry. -/
theorem parseList_eq_error {fault : ImplementationFault} :
    parseList text = .error fault ↔
      (entries text = [] ∧ fault = .noneGiven) ∨
      ∃ before entry behind, entries text = before ++ entry :: behind ∧
        (∀ e ∈ before, Hyphenated (trim e)) ∧ ¬Hyphenated (trim entry) ∧
        fault = .form (String.ofList (trim entry)) := by
  unfold parseList
  -- Either an entry is refused or all are read, and then it is the check that something was given.
  rw [bind_eq_error, mapM_eq_error]
  simp only [exists_parse_eq_ok, parse_eq_error]
  rw [or_comm]
  refine or_congr ?_ Iff.rfl
  constructor
  · rintro ⟨is, his, h⟩
    split at h
    next hnone =>
      -- Every entry gives an implementation, so there are no entries if there are none of these.
      have hentries := (mapM_eq_ok.mp his).length_eq
      rw [List.isEmpty_iff.mp hnone, List.length_nil] at hentries
      exact ⟨List.length_eq_zero_iff.mp hentries, (Except.error.inj h).symm⟩
    next => cases h
  · rintro ⟨hentries, rfl⟩
    rw [hentries]
    exact ⟨[], rfl, rfl⟩

/-- A list is accepted exactly if some entry is not blank and every such entry has the form. -/
theorem exists_parseList_eq_ok :
    (∃ is, parseList text = .ok is) ↔
      (∃ entry ∈ text.splitOn ',', trim entry ≠ []) ∧
        ∀ entry ∈ text.splitOn ',', trim entry ≠ [] → Hyphenated (trim entry) := by
  have hforms : (∀ entry ∈ entries text, Hyphenated (trim entry)) ↔
      ∀ entry ∈ text.splitOn ',', trim entry ≠ [] → Hyphenated (trim entry) := by
    simp only [entries_eq, mem_inked, and_imp]
  have hsome : entries text ≠ [] ↔ ∃ entry ∈ text.splitOn ',', trim entry ≠ [] := by
    unfold entries
    rw [Ne, List.filter_eq_nil_iff]
    simp
  rw [← hforms, ← hsome]
  constructor
  · rintro ⟨is, h⟩
    obtain ⟨hread, hne⟩ := parseList_eq_ok.mp h
    constructor
    · intro hnil
      rw [hnil] at hread
      cases hread
      exact hne rfl
    · intro entry hentry
      exact exists_parse_eq_ok.mp (exists_mapM_eq_ok.mp ⟨is, mapM_eq_ok.mpr hread⟩ entry hentry)
  · rintro ⟨hne, hall⟩
    cases h : parseList text with
    | ok is => exact ⟨is, rfl⟩
    | error fault =>
      -- Each of the two faults contradicts one of the two conditions.
      rcases parseList_eq_error.mp h with ⟨hnil, -⟩ | ⟨before, entry, behind, hsplit, -, hform, -⟩
      · exact absurd hnil hne
      · refine absurd (hall entry ?_) hform
        rw [hsplit]
        simp

/-- **The grammar of lists of implementations.** A text is accepted exactly if some entry between
its commas is not blank and every such entry, trimmed, has one hyphen with text on both sides. What
is read are the two names around the hyphens of these entries, in order. A text that is refused has
no entry that is not blank, or its first such entry without this form is named as it is trimmed. And
what is read is what has been written: implementations whose names are not empty, have no comma and
no hyphen, and have no blank at the outside, written in this order between commas, with any blanks
around them and any blank entries in between. -/
theorem parseList_grammar (text : List Char) :
    ((∃ is, parseList text = .ok is) ↔
      (∃ entry ∈ text.splitOn ',', trim entry ≠ []) ∧
        ∀ entry ∈ text.splitOn ',', trim entry ≠ [] → Hyphenated (trim entry)) ∧
    (∀ is, parseList text = .ok is →
      List.Forall₂ (fun entry i => trim entry = i.name.toList ++ '-' :: i.variant.toList)
        (entries text) is) ∧
    (∀ fault, parseList text = .error fault ↔
      (entries text = [] ∧ fault = .noneGiven) ∨
      ∃ before entry behind, entries text = before ++ entry :: behind ∧
        (∀ e ∈ before, Hyphenated (trim e)) ∧ ¬Hyphenated (trim entry) ∧
        fault = .form (String.ofList (trim entry))) ∧
    ∀ is, parseList text = .ok is ↔
      is ≠ [] ∧ (∀ i ∈ is, i.Writable) ∧
        ∃ pieces, Written pieces is ∧ text = [','].intercalate pieces := by
  refine ⟨exists_parseList_eq_ok, ?_, fun _ => parseList_eq_error, fun _ => parseList_eq_ok_iff⟩
  intro is h
  exact (parseList_eq_ok.mp h).1.imp fun entry i hread => trim_eq_chars hread

end Implementation

end PinnedBench
