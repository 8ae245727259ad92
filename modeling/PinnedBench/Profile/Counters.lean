import PinnedBench.Arithmetic
import PinnedBench.Double
import PinnedBench.Profile.Series
import PinnedBench.Text.Blank
import PinnedBench.Text.Lines
import PinnedBench.Text.Numeral

/-!
# Counters of the machine

The kernel keeps counters of processor time, memory and disk traffic and shows them as texts. This
module reads the three texts and turns two readings of the processor counters into a load.

* The line of the processor has times spent on kinds of work; the fourth and the fifth are idle.
  Words that are no counters are left out before the kinds are told apart. The line is refused
  unless four counters are left.
* Memory in use is the total less what is available.
* Disk traffic is counted in sectors of 512 bytes over all devices, except those held in memory.
-/

namespace PinnedBench

/-- A counter, if the word is one. -/
def readCounter (word : List Char) : Option UInt64 :=
  (readWhole (powerOfTwo 64 - 1) word).toOption.map Nat.toUInt64

/-! ### Processor time -/

/-- Time spent by the processors since the machine was started. -/
structure CpuTimes where
  /-- The time spent on work. -/
  busy : UInt64
  /-- All time. -/
  total : UInt64
  deriving DecidableEq, Repr

/-- The times that a list of counters stands for. -/
def CpuTimes.ofCounters : List UInt64 → Option CpuTimes
  | counters@(_ :: _ :: _ :: idle :: rest) =>
    let total := counters.foldl (· + ·) 0
    some ⟨total - (idle + rest.headD 0), total⟩
  | _ => none

/-- Reads the line of all processors together. -/
def CpuTimes.parse (line : List Char) : Option CpuTimes :=
  match words line with
  | ['c', 'p', 'u'] :: counters => CpuTimes.ofCounters (counters.filterMap readCounter)
  | _ => none

/-- A memory of the last processor times that could be read. -/
abbrev CpuMemory := Option CpuTimes

/-- **The load since the last times**, in percent, and what to remember. Times that cannot be read
change nothing; the first times and times that do not grow count as no load. -/
def CpuMemory.load {α : Type} [NatCast α] [Div α] [Mul α] (memory : CpuMemory) :
    Option CpuTimes → α × CpuMemory
  | none => (((0 : Nat) : α), memory)
  | some now =>
    let load := match memory with
      | some last =>
        if last.total < now.total then
          ((now.busy.toNat - last.busy.toNat : Nat) : α) /
            ((now.total.toNat - last.total.toNat : Nat) : α) * ((100 : Nat) : α)
        else ((0 : Nat) : α)
      | none => ((0 : Nat) : α)
    (load, some now)

/-! ### Memory -/

/-- The number behind a label at the start of a line: the second word of the first such line. -/
def labelled (label : List Char) (text : List Char) : Option Double := do
  let line ← (lines text).find? fun line => label.isPrefixOf line
  let word ← (words line)[1]?
  (readReal word).toOption

/-- The megabytes of memory in use. -/
def usedMemory (text : List Char) : Option Double := do
  let total ← labelled "MemTotal:".toList text
  let available ← labelled "MemAvailable:".toList text
  some (larger ((0 : Nat) : Double) (total - available) / ((1024 : Nat) : Double))

/-! ### Disks -/

/-- The device of a line and the sectors read and written, if the line is long enough. -/
def deviceSectors (line : List Char) : Option (List Char × UInt64 × UInt64) := do
  let fields := words line
  let name ← fields[2]?
  let read ← fields[5]?
  let written ← fields[9]?
  some (name, (readCounter read).getD 0, (readCounter written).getD 0)

/-- Whether a device is held in memory. -/
def heldInMemory (name : List Char) : Bool :=
  "loop".toList.isPrefixOf name || "ram".toList.isPrefixOf name

/-- The megabytes in a number of sectors. -/
def sectorMegabytes (sectors : UInt64) : Double :=
  ((sectors * 512).toNat : Double) / ((1048576 : Nat) : Double)

/-- The megabytes read from and written to disks. -/
def diskTraffic (text : List Char) : Double × Double :=
  let devices := ((lines text).filterMap deviceSectors).filter fun d => !heldInMemory d.1
  (sectorMegabytes ((devices.map (·.2.1)).foldl (· + ·) 0),
    sectorMegabytes ((devices.map (·.2.2)).foldl (· + ·) 0))

/-! ### The machine as a whole -/

/-- The texts in which the kernel shows its counters; one that cannot be read is nothing. -/
structure CounterTexts where
  /-- The processor times. -/
  processors : Option String
  /-- The memory. -/
  memory : Option String
  /-- The disks. -/
  disks : Option String

/-- **A reading of the machine**, with what to remember for the next one. A figure that cannot be
read is zero, and so is the graphics load. -/
def CounterTexts.reading (texts : CounterTexts) (memory : CpuMemory) :
    Reading Double × CpuMemory :=
  let zero : Double := ((0 : Nat) : Double)
  let times := do
    let text ← texts.processors
    let line ← (lines text.toList).head?
    CpuTimes.parse line
  let (cpu, memory) : Double × CpuMemory := memory.load times
  let (read, written) := match texts.disks with
    | some text => diskTraffic text.toList
    | none => (zero, zero)
  let ram := (texts.memory.bind fun text => usedMemory text.toList).getD zero
  (⟨cpu, ram, read, written, zero⟩, memory)

end PinnedBench
