import Mathlib
import PinnedBench.Proofs.Double.Quotients
import PinnedBench.Proofs.Profile.Columns

/-!
# Disk traffic

The traffic is the sum over all lines that count: those that are long enough and whose device is not
held in memory. It does not matter in which order they stand and which other lines are between them
(`diskTraffic_of_perm`).

A partition has a line of its own, besides that of its disk, in which the kernel has counted its
sectors already. It counts like any other line, since only the start of a name is looked at
(`heldInMemory_append_digits`). So its traffic is counted twice (`disk_traffic_of_lines`), and the
traffic of a machine with partitions is up to twice of what it should be
(`partition_is_counted_twice`).
-/

namespace PinnedBench

/-! ### Lines that count -/

/-- Whether a line counts: it is long enough, and its device is not held in memory. -/
def counts (line : List Char) : Bool :=
  (deviceSectors line).any fun device => !heldInMemory device.1

/-- The lines of a text that count. -/
def countedLines (text : List Char) : List (List Char) := (lines text).filter counts

/-- The devices of the lines that count, with the sectors that were read and written. -/
def countedDevices (text : List Char) : List (List Char × UInt64 × UInt64) :=
  (countedLines text).filterMap deviceSectors

/-- The sectors that were read from all devices. -/
def sectorsRead (text : List Char) : Nat := wordSum ((countedDevices text).map (·.2.1))

/-- The sectors that were written to all devices. -/
def sectorsWritten (text : List Char) : Nat := wordSum ((countedDevices text).map (·.2.2))

/-- Lines may be chosen before they are read or after. -/
theorem countedDevices_eq (text : List Char) :
    countedDevices text =
      ((lines text).filterMap deviceSectors).filter fun device => !heldInMemory device.1 := by
  rw [countedDevices, countedLines, List.filterMap_filter, List.filter_filterMap]
  apply List.filterMap_congr
  intro line _
  cases hdevice : deviceSectors line with
  | none => simp [counts, hdevice]
  | some device => simp [counts, hdevice, Option.filter]

/-- The traffic is read off the devices of the lines that count. -/
theorem diskTraffic_eq (text : List Char) :
    diskTraffic text =
      (sectorMegabytes (((countedDevices text).map (·.2.1)).foldl (· + ·) 0),
        sectorMegabytes (((countedDevices text).map (·.2.2)).foldl (· + ·) 0)) := by
  rw [countedDevices_eq, diskTraffic]

/-- **The traffic** depends on the lines that count, but not on their order. -/
theorem diskTraffic_of_perm {text text' : List Char}
    (h : (countedLines text).Perm (countedLines text')) : diskTraffic text = diskTraffic text' := by
  have hdevices : (countedDevices text).Perm (countedDevices text') := h.filterMap _
  rw [diskTraffic_eq, diskTraffic_eq, (hdevices.map _).foldl_eq, (hdevices.map (·.2.2)).foldl_eq]

/-! ### Megabytes -/

/-- The megabytes in a number of sectors that need not fit a word. -/
def megabytes (sectors : Nat) : Double :=
  ((512 * sectors : Nat) : Double) / ((1048576 : Nat) : Double)

/-- Sectors of which there are not too many make a number of megabytes that is stored as it is. -/
theorem value_megabytes {n : Nat} (h : n < 2 ^ 53) : (megabytes n).value = n / 2048 := by
  have hfinite : ((512 * n : Nat) : Double).isFinite = true :=
    (Double.rounds_natCast _).finite (Double.inRange_natCast (by omega))
  -- The bytes are a significand that fits, scaled, and so are the megabytes.
  have hbytes : ((512 * n : Nat) : Double).value = n * 2 ^ (9 : Int) := by
    have hrounds := Double.rounds_natCast (512 * n)
    have hscaled : ((512 * n : Nat) : ℚ) = n * 2 ^ (9 : Int) := by
      push_cast
      ring
    rw [hscaled] at hrounds
    exact hrounds.value_of_storable ⟨n, 9, h, by decide, abs_of_nonneg (by positivity)⟩ hfinite
  have hmegabyte : ((1048576 : Nat) : Double).value = 1048576 := by
    exact_mod_cast Double.value_natCast_of_lt (n := 1048576) (by decide)
  have hquotient : (n : ℚ) * 2 ^ (9 : Int) / 1048576 = n * 2 ^ (-11 : Int) := by
    norm_num
    ring
  -- Both operands are exact and so is their quotient, so nothing is lost by rounding it.
  have hrounds := Double.rounds_div (x := ((512 * n : Nat) : Double))
    (y := ((1048576 : Nat) : Double)) hfinite (Double.isFinite_natCast (by decide))
    (by rw [hmegabyte]; norm_num)
  rw [hbytes, hmegabyte, hquotient] at hrounds
  have hle : (n : ℚ) * 2 ^ (-11 : Int) ≤ 2 ^ (53 : Int) := by
    have hn : (n : ℚ) ≤ 2 ^ (53 : Int) := by exact_mod_cast h.le
    calc (n : ℚ) * 2 ^ (-11 : Int) ≤ n * 1 := by gcongr; norm_num
      _ ≤ 2 ^ (53 : Int) := by rwa [mul_one]
  have hresult := hrounds.finite
    (Double.inRange_of_le (by positivity) hle (by decide) (by decide))
  rw [megabytes, hrounds.value_of_storable
    ⟨n, -11, h, by decide, abs_of_nonneg (by positivity)⟩ hresult]
  norm_num
  ring

/-- So different numbers of sectors make different traffic. -/
theorem megabytes_inj {n m : Nat} (hn : n < 2 ^ 53) (hm : m < 2 ^ 53)
    (h : megabytes n = megabytes m) : n = m := by
  have hvalue := congrArg Double.value h
  rw [value_megabytes hn, value_megabytes hm] at hvalue
  have heq : (n : ℚ) = m := by linarith
  exact_mod_cast heq

/-- A text whose counters do not overflow, neither as sectors nor as bytes. -/
structure Fits (text : List Char) : Prop where
  /-- What was read fits a word in bytes, so it fits one in sectors as well, -/
  read : 512 * sectorsRead text < 2 ^ 64
  /-- and so does what was written. -/
  written : 512 * sectorsWritten text < 2 ^ 64

/-- Where the counters do not overflow, adding up as words and scaling is scaling the sum. -/
theorem sectorMegabytes_foldl {sectors : List UInt64} (h : 512 * wordSum sectors < 2 ^ 64) :
    sectorMegabytes (sectors.foldl (· + ·) 0) = megabytes (wordSum sectors) := by
  have hbytes : (sectors.foldl (· + ·) 0 * 512).toNat = 512 * wordSum sectors := by
    rw [UInt64.toNat_mul, toNat_foldl_zero (by omega), UInt64.toNat_ofNat, Nat.mul_comm]
    exact Nat.mod_eq_of_lt h
  rw [sectorMegabytes, hbytes, megabytes]

theorem diskTraffic_eq_megabytes {text : List Char} (h : Fits text) :
    diskTraffic text = (megabytes (sectorsRead text), megabytes (sectorsWritten text)) := by
  rw [diskTraffic_eq, sectorMegabytes_foldl h.read, sectorMegabytes_foldl h.written, sectorsRead,
    sectorsWritten]

/-! ### Partitions -/

/-- A label without digits begins a name if it begins the name without the digits at its end. -/
theorem isPrefixOf_append_digits {label digits : List Char}
    (hlabel : label.any Char.isDigit = false)
    (hdigits : digits.all Char.isDigit = true) (disk : List Char) :
    label.isPrefixOf (disk ++ digits) = label.isPrefixOf disk := by
  induction label generalizing disk with
  | nil => rfl
  | cons c label ih =>
    rw [List.any_cons, Bool.or_eq_false_iff] at hlabel
    cases disk with
    | nil =>
      cases digits with
      | nil => rfl
      | cons d digits =>
        -- A digit does not begin the label.
        have hne : c ≠ d := by
          rintro rfl
          rw [List.all_cons, hlabel.1] at hdigits
          exact Bool.false_ne_true hdigits
        rw [List.nil_append, List.isPrefixOf_cons_cons, beq_false_of_ne hne, Bool.false_and]
        rfl
    | cons d disk =>
      rw [List.cons_append, List.isPrefixOf_cons_cons, List.isPrefixOf_cons_cons, ih hlabel.2]

/-- A device whose name goes on with digits is held in memory if the one without them is. -/
theorem heldInMemory_append_digits (disk : List Char) {digits : List Char}
    (h : digits.all Char.isDigit = true) : heldInMemory (disk ++ digits) = heldInMemory disk := by
  have hloop : "loop".toList.any Char.isDigit = false := by decide
  have hram : "ram".toList.any Char.isDigit = false := by decide
  rw [heldInMemory, heldInMemory, isPrefixOf_append_digits hloop h, isPrefixOf_append_digits hram h]

/-- **A line for a partition** that is put into a text with a line for its disk, which is not held
in memory: the name of the partition is that of the disk with a number behind it. -/
structure PartitionLine (text wider line : List Char) (read written : UInt64) : Prop where
  /-- The line stands somewhere among the others, which keep their order. -/
  inserted : ∃ front back, lines text = front ++ back ∧ lines wider = front ++ line :: back
  /-- It has counters of its own, and its name is that of a disk with a line. -/
  named : ∃ disk digits, digits ≠ [] ∧ digits.all Char.isDigit = true ∧
    deviceSectors line = some (disk ++ digits, read, written) ∧ heldInMemory disk = false ∧
      ∃ diskLine ∈ lines text, ∃ sectors, deviceSectors diskLine = some (disk, sectors)

section Partition

variable {text wider line : List Char} {read written : UInt64}

/-- The line of a partition counts, as the line of its disk does. -/
theorem PartitionLine.counts (h : PartitionLine text wider line read written) :
    ∃ name, deviceSectors line = some (name, read, written) ∧ counts line = true := by
  obtain ⟨disk, digits, -, hdigits, hdevice, hheld, -⟩ := h.named
  refine ⟨disk ++ digits, hdevice, ?_⟩
  rw [PinnedBench.counts, hdevice, Option.any_some, heldInMemory_append_digits disk hdigits, hheld]
  rfl

/-- **The sectors of a partition** are added to those of all other lines. -/
theorem PartitionLine.sectors (h : PartitionLine text wider line read written) :
    sectorsRead wider = sectorsRead text + read.toNat ∧
      sectorsWritten wider = sectorsWritten text + written.toNat := by
  obtain ⟨name, hdevice, hcounts⟩ := h.counts
  obtain ⟨front, back, hfewer, hmore⟩ := h.inserted
  have hdevices : (countedDevices wider).Perm ((name, read, written) :: countedDevices text) := by
    rw [countedDevices, countedDevices, countedLines, countedLines, hfewer, hmore,
      List.filter_append, List.filter_append, List.filter_cons_of_pos hcounts,
      List.filterMap_append, List.filterMap_append, List.filterMap_cons_some hdevice]
    exact List.perm_middle
  have hsum : ∀ f : List Char × UInt64 × UInt64 → UInt64,
      wordSum ((countedDevices wider).map f) =
        wordSum ((countedDevices text).map f) + (f (name, read, written)).toNat := by
    intro f
    have hperm := ((hdevices.map f).map UInt64.toNat).sum_eq
    rw [List.map_cons, List.map_cons, List.sum_cons, Nat.add_comm] at hperm
    exact hperm
  exact ⟨hsum (·.2.1), hsum (·.2.2)⟩

end Partition

/-- **The traffic of the lines of a text.** Only the lines that count matter, and not their order.
Where nothing overflows, the traffic is that of all their sectors. A line for a partition adds its
sectors once more, although the line of its disk has them already, so it leaves the traffic as it is
only if it has none. (Of more than `2 ^ 53` sectors, the megabytes are rounded, which may hide a
few.) -/
theorem disk_traffic_of_lines (text : List Char) :
    (∀ text', (countedLines text).Perm (countedLines text') →
      diskTraffic text = diskTraffic text') ∧
    (Fits text →
      diskTraffic text = (megabytes (sectorsRead text), megabytes (sectorsWritten text))) ∧
    ∀ wider line read written, PartitionLine text wider line read written →
      sectorsRead wider = sectorsRead text + read.toNat ∧
        sectorsWritten wider = sectorsWritten text + written.toNat ∧
        (sectorsRead wider < 2 ^ 53 → sectorsWritten wider < 2 ^ 53 →
          (diskTraffic wider = diskTraffic text ↔ read = 0 ∧ written = 0)) := by
  refine ⟨fun _ => diskTraffic_of_perm, diskTraffic_eq_megabytes, ?_⟩
  intro wider line read written h
  obtain ⟨hread, hwritten⟩ := h.sectors
  refine ⟨hread, hwritten, fun hfew hfew' => ?_⟩
  have hfits : Fits wider := ⟨by omega, by omega⟩
  have hfits' : Fits text := ⟨by omega, by omega⟩
  have hzero : ∀ x : UInt64, x = 0 ↔ x.toNat = 0 := fun x => UInt64.toNat_inj.symm
  rw [diskTraffic_eq_megabytes hfits, diskTraffic_eq_megabytes hfits', hread, hwritten,
    Prod.mk.injEq, hzero, hzero]
  constructor
  · rintro ⟨hsame, hsame'⟩
    -- The megabytes tell the sectors, so there is nothing in the partition.
    have hnothing := megabytes_inj (by omega) (by omega) hsame
    have hnothing' := megabytes_inj (by omega) (by omega) hsame'
    omega
  · rintro ⟨hnothing, hnothing'⟩
    rw [hnothing, hnothing']
    exact ⟨rfl, rfl⟩

/-- The line of a disk. -/
def diskLine : String := "   8       0 sda 10 0 2048 0 5 0 4096 0 0 0 0"

/-- A device that is held in memory, and the disk. -/
def diskLines : List String := ["   7       0 loop0 1 0 9 0 1 0 9 0", diskLine]

/-- The one partition of the disk, to which all of its sectors belong. -/
def partitionLine : String := "   8       1 sda1 10 0 2048 0 5 0 4096 0 0 0 0"

/-- The text of lines that are each ended by a line feed. -/
def textOfLines (ls : List String) : List Char := ls.flatMap fun l => l.toList ++ ['\n']

theorem partitionLine_diskLines :
    PartitionLine (textOfLines diskLines) (textOfLines (diskLines ++ [partitionLine]))
      partitionLine.toList 2048 4096 where
  inserted := ⟨lines (textOfLines diskLines), [], (List.append_nil _).symm, by decide +kernel⟩
  named := ⟨"sda".toList, ['1'], by decide, by decide, by decide +kernel, by decide +kernel,
    diskLine.toList, by decide +kernel, (2048, 4096), by decide +kernel⟩

/-- The sectors of a partition are added to those of its disk. -/
theorem sectors_of_partition :
    sectorsRead (textOfLines (diskLines ++ [partitionLine])) =
        sectorsRead (textOfLines diskLines) + 2048 ∧
      diskTraffic (textOfLines (diskLines ++ [partitionLine])) ≠
        diskTraffic (textOfLines diskLines) := by
  obtain ⟨-, -, hpartition⟩ := disk_traffic_of_lines (textOfLines diskLines)
  obtain ⟨hread, -, hsame⟩ := hpartition _ _ _ _ partitionLine_diskLines
  refine ⟨hread, fun h => ?_⟩
  have hnothing := (hsame (by decide +kernel) (by decide +kernel)).mp h
  exact absurd hnothing (by decide)

/-- **The traffic of a disk with one partition** is twice that of the disk: the sectors are those of
the disk, one megabyte that was read and two that were written, and they are counted again. -/
theorem partition_is_counted_twice :
    diskTraffic (textOfLines diskLines) = (((1 : Nat) : Double), ((2 : Nat) : Double)) ∧
      diskTraffic (textOfLines (diskLines ++ [partitionLine])) =
        (((2 : Nat) : Double), ((4 : Nat) : Double)) := by
  decide +kernel

end PinnedBench
