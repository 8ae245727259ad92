import PinnedBench.Digest.Sha256
import PinnedBench.Proofs.Text.Pieces

/-!
# Digests in hexadecimal

A digest is recorded and compared as hexadecimal text. Two facts make that safe: different bytes
have different texts (`hexChars_injective`), and a text of hexadecimal digits has no blanks that
reading a lock could take off its ends (`Sha256.trimText_hex`).
-/

namespace PinnedBench

/-! ### Hexadecimal digits -/

theorem isBlank_hexDigit : ∀ n < 16, isBlank (hexDigit n) = false := by decide

/-- Different numbers below sixteen have different digits. -/
theorem hexDigit_inj : ∀ n < 16, ∀ k < 16, hexDigit n = hexDigit k → n = k := by decide

/-- Neither digit of a byte is a blank. -/
theorem isBlank_of_mem_hexByte {b : UInt8} {c : Char} (h : c ∈ hexByte b) : isBlank c = false := by
  have hb := b.toNat_lt
  rw [hexByte, List.mem_cons, List.mem_singleton] at h
  rcases h with rfl | rfl
  · exact isBlank_hexDigit _ (by omega)
  · exact isBlank_hexDigit _ (by omega)

/-- Different bytes have different pairs of digits: a byte is its high half and its low half. -/
theorem hexByte_inj {a b : UInt8} (h : hexByte a = hexByte b) : a = b := by
  have ha := a.toNat_lt
  have hb := b.toNat_lt
  obtain ⟨hhigh, hlow⟩ := List.cons.inj h
  have hhigh := hexDigit_inj _ (by omega) _ (by omega) hhigh
  have hlow := hexDigit_inj _ (by omega) _ (by omega) (List.cons.inj hlow).1
  exact UInt8.toNat_inj.mp (by omega)

/-- **Different bytes** have different texts. -/
theorem hexChars_injective {as bs : List UInt8} (h : hexChars as = hexChars bs) : as = bs := by
  -- The induction is on the first row, byte by byte, with the second one left open.
  induction as generalizing bs with
  | nil =>
    have hlength := congrArg List.length h
    rw [length_hexChars, length_hexChars, List.length_nil] at hlength
    exact (List.eq_nil_of_length_eq_zero (by omega)).symm
  | cons a as ih =>
    match bs with
    | [] => simp [hexChars, hexByte] at h
    | b :: bs =>
      -- Every byte takes up two digits, so the texts fall apart at the same place.
      have happend : hexByte a ++ hexChars as = hexByte b ++ hexChars bs := h
      obtain ⟨hbyte, hrest⟩ := List.append_inj happend rfl
      rw [hexByte_inj hbyte, ih hrest]

/-! ### Digests -/

namespace Sha256

/-- **A recorded digest** stays as it is when the blanks around it are taken off. -/
theorem trimText_hex (m : ByteArray) : trimText (hex m) = hex m := by
  have hblank : ∀ c ∈ hexChars (digest m), isBlank c = false := by
    intro c hc
    obtain ⟨b, -, hb⟩ := List.mem_flatMap.mp hc
    exact isBlank_of_mem_hexByte hb
  rw [trimText, hex, String.toList_ofList, trim_eq_self hblank]

/-- Messages have the same recorded digest exactly when they have the same digest. -/
theorem hex_eq_iff {m n : ByteArray} : hex m = hex n ↔ digest m = digest n := by
  constructor
  · intro h
    refine hexChars_injective ?_
    rw [← String.toList_ofList (l := hexChars (digest m)), ← hex, h, hex, String.toList_ofList]
  · intro h
    rw [hex, hex, h]

end Sha256

end PinnedBench
