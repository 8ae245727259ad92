import Mathlib.Data.List.Nodup
import PinnedBench.Bench.Implementation
import PinnedBench.Proofs.Outcomes

/-!
# Lists of implementations as they are written

An implementation is read from an entry of a list if the entry, without the blanks around it, is the
written form of the implementation (`Implementation.trim_eq_chars`). So a list names an
implementation twice exactly if it has the same entry twice, blanks apart
(`Implementation.nodup_of_parseList`).

The key of an implementation joins its two names with a slash. A slash is not refused in a name, so
different implementations may share a key; they do not if no language has one
(`Implementation.key_inj`).
-/

namespace PinnedBench

namespace Implementation

/-- An implementation as it is written in a list. -/
def chars (i : Implementation) : List Char := i.name.toList ++ '-' :: i.variant.toList

variable {text text' : List Char} {i j : Implementation}

/-- **What is read** is what is written between the blanks. -/
theorem trim_eq_chars (h : parse text = .ok i) : trim text = i.chars := by
  have hjoin : ['-'].intercalate ((trim text).splitOn '-') = trim text :=
    List.intercalate_splitOn '-'
  unfold parse at h
  split at h
  next name variant hsplit =>
    -- There are two pieces around the only hyphen, and neither of them is empty.
    split at h
    next => cases h
    next =>
      obtain rfl := Except.ok.inj h
      rw [hsplit] at hjoin
      rw [← hjoin]
      simp [chars, List.intercalate]
  next => cases h

theorem parse_congr (h : trim text = trim text') : parse text = parse text' := by
  unfold parse
  rw [h]

/-- A list is read as what its entries are read as, if there is one. -/
theorem parseList_eq_ok {implementations : List Implementation} :
    parseList text = .ok implementations ↔
      List.Forall₂ (fun entry i => parse entry = .ok i) (entries text) implementations ∧
        implementations ≠ [] := by
  unfold parseList
  rw [bind_eq_ok]
  constructor
  · rintro ⟨is, his, h⟩
    split at h
    next => cases h
    next hsome =>
      obtain rfl := Except.ok.inj h
      exact ⟨mapM_eq_ok.mp his, fun hnil => hsome (by rw [hnil]; rfl)⟩
  · rintro ⟨hentries, hsome⟩
    refine ⟨implementations, mapM_eq_ok.mpr hentries, ?_⟩
    rw [List.isEmpty_eq_false_iff.mpr hsome]
    rfl

/-- **A list names no implementation twice** exactly if no two of its entries are the same, blanks
apart. -/
theorem nodup_of_parseList {implementations : List Implementation}
    (h : parseList text = .ok implementations) :
    ((entries text).map trim).Nodup ↔ implementations.Nodup := by
  obtain ⟨hentries, -⟩ := parseList_eq_ok.mp h
  -- An entry without its blanks and what is read of it determine each other.
  have hunique : Relator.BiUnique fun (cs : List Char) (i : Implementation) =>
      ∃ entry, trim entry = cs ∧ parse entry = .ok i := by
    constructor
    · rintro _ i _ ⟨entry, rfl, hread⟩ ⟨entry', rfl, hread'⟩
      rw [trim_eq_chars hread, trim_eq_chars hread']
    · rintro cs i i' ⟨entry, htrim, hread⟩ ⟨entry', htrim', hread'⟩
      rw [parse_congr (htrim.trans htrim'.symm), hread'] at hread
      exact (Except.ok.inj hread).symm
  apply List.rel_nodup hunique
  rw [List.forall₂_map_left_iff]
  exact hentries.imp fun entry i hread => ⟨entry, rfl, hread⟩

/-! ### Keys -/

/-- The key is the first name, a slash and the second name. -/
theorem toList_key (i : Implementation) :
    i.key.toList = i.name.toList ++ '/' :: i.variant.toList := by
  unfold key
  simp [toString]

/-- A language without a slash is what stands before the first slash of the key. -/
theorem takeWhile_key (h : '/' ∉ i.name.toList) :
    i.key.toList.takeWhile (· != '/') = i.name.toList := by
  have hslash : ∀ c ∈ i.name.toList, (c != '/') = true := by
    intro c hc
    rw [bne_iff_ne]
    rintro rfl
    exact h hc
  rw [toList_key, List.takeWhile_append_of_pos hslash, List.takeWhile_cons_of_neg (by decide),
    List.append_nil]

/-- **The key** tells apart implementations whose languages have no slash. -/
theorem key_inj (hi : '/' ∉ i.name.toList) (hj : '/' ∉ j.name.toList) : i.key = j.key ↔ i = j := by
  constructor
  · intro h
    have hnames : i.name.toList = j.name.toList := by
      rw [← takeWhile_key hi, h, takeWhile_key hj]
    -- The variant is what stands behind the language and a slash.
    have hkeys : i.key.toList = j.key.toList := by rw [h]
    rw [toList_key, toList_key, hnames] at hkeys
    have hvariants := List.tail_eq_of_cons_eq (List.append_cancel_left hkeys)
    exact congrArg₂ mk (String.toList_inj.mp hnames) (String.toList_inj.mp hvariants)
  · rintro rfl
    rfl

/-- Where no language has a slash, keys are repeated only with their implementations. -/
theorem nodup_map_key {implementations : List Implementation}
    (h : ∀ i ∈ implementations, '/' ∉ i.name.toList) :
    (implementations.map key).Nodup ↔ implementations.Nodup := by
  constructor
  · exact List.Nodup.of_map key
  · apply List.Nodup.map_on
    intro i hi j hj hkey
    exact (key_inj (h i hi) (h j hj)).mp hkey

end Implementation

end PinnedBench
