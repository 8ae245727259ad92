import PinnedBench.Digest.Sha256
import PinnedBench.Text.Blank
import PinnedBench.Text.Lines

/-!
# Stamps

A report is stamped with the time and the machine of its making. A `Moment` counts seconds since the
start of 1970; a leap second is counted as a thousand million nanoseconds more in the second before
it. `Moment.text` writes a moment in the calendar, to the microsecond.

`reportId` is derived from the written moment and the name of the host alone, so that two reports
with the same content differ in it.
-/

namespace PinnedBench

/-! ### Moments -/

/-- A moment in time. -/
structure Moment where
  /-- The seconds since the start of 1970, leap seconds not counted. -/
  seconds : Int
  /-- The nanoseconds within the second, those of a leap second included. -/
  nanoseconds : UInt32
  deriving DecidableEq, Repr

/-- A day of the calendar. -/
structure CalendarDay where
  /-- The year, counted from the one before the first. -/
  year : Int
  /-- The month, from one to twelve. -/
  month : Nat
  /-- The day of the month, from one on. -/
  day : Nat
  deriving DecidableEq, Repr

/-- The calendar day that follows the start of 1970 by so many days. The calendar repeats after 400
years; within them, years are counted from the first of March, so that the day of a leap year comes
last. -/
def CalendarDay.ofDays (days : Int) : CalendarDay :=
  -- The days from the first of March of the year zero up to the start of 1970.
  let shifted := days + 719468
  let era := shifted / 146097
  let dayOfEra := (shifted % 146097).toNat
  let yearOfEra := (dayOfEra - dayOfEra / 1460 + dayOfEra / 36524 - dayOfEra / 146096) / 365
  let dayOfYear := dayOfEra - (365 * yearOfEra + yearOfEra / 4 - yearOfEra / 100)
  let monthFromMarch := (5 * dayOfYear + 2) / 153
  let day := dayOfYear - (153 * monthFromMarch + 2) / 5 + 1
  let month := if monthFromMarch < 10 then monthFromMarch + 3 else monthFromMarch - 9
  let year := (yearOfEra : Int) + era * 400
  ⟨if month ≤ 2 then year + 1 else year, month, day⟩

/-- A number with at least so many digits. -/
def paddedText (width n : Nat) : String :=
  let ds := Nat.toDigits 10 n
  String.ofList (List.replicate (width - ds.length) '0' ++ ds)

/-- A year: four digits, with a sign unless it is one of the first ten thousand. -/
def yearText (year : Int) : String :=
  if 0 ≤ year ∧ year ≤ 9999 then paddedText 4 year.toNat
  else (if year < 0 then "-" else "+") ++ paddedText 4 year.natAbs

/-- A moment as it is written: the day and the time of the day, to the microsecond. -/
def Moment.text (t : Moment) : String :=
  let day := CalendarDay.ofDays (t.seconds / 86400)
  let second := (t.seconds % 86400).toNat
  let nanoseconds := t.nanoseconds.toNat
  yearText day.year ++ "-" ++ paddedText 2 day.month ++ "-" ++ paddedText 2 day.day ++ "T" ++
    paddedText 2 (second / 3600) ++ ":" ++ paddedText 2 (second / 60 % 60) ++ ":" ++
    paddedText 2 (second % 60 + nanoseconds / 1000000000) ++ "." ++
    paddedText 6 (nanoseconds % 1000000000 / 1000) ++ "Z"

/-! ### Machines -/

/-- The machine that a report is made on. -/
structure Machine where
  /-- The name of the host. -/
  hostName : String
  /-- The name of the operating system. -/
  system : String
  /-- The release of its kernel. -/
  kernel : String
  /-- The model of the processor. -/
  processor : String
  deriving DecidableEq, Repr

namespace Machine

/-- What stands for a fact that is not known. -/
def unknown : String := "unknown"

/-- A text without surrounding blanks, unless nothing is left. -/
def factOf (text : String) : Option String :=
  let fact := trimText text
  if fact.isEmpty then none else some fact

/-- The model in a description of processors: what stands between the first and the second colon of
the first line that names a model. -/
def modelOf (description : String) : Option String := do
  let line ← (lines description.toList).find? fun line => "model name".toList.isPrefixOf line
  let field ← (line.splitOn ':')[1]?
  factOf (String.ofList field)

/-- The machine that texts describe, the first of several that says anything being taken for the
name of the host; a text that cannot be read, or says nothing, leaves a fact unknown. -/
def ofTexts (hostNames : List (Option String)) (kernel processors : Option String) : Machine where
  hostName := (hostNames.findSome? (·.bind factOf)).getD unknown
  system := "Linux"
  kernel := (kernel.bind factOf).getD unknown
  processor := (processors.bind modelOf).getD unknown

end Machine

/-! ### Stamps -/

/-- The time and place of a report's making. -/
structure Stamp where
  /-- When it is made. -/
  moment : Moment
  /-- Where it is made. -/
  machine : Machine
  /-- The commit of the working directory, if it is under version control. -/
  commit : Option String
  deriving DecidableEq, Repr

/-- The identifier of a report: the first sixteen digits of the digest of the written moment
followed by the name of the host. -/
def reportId (generatedAt hostName : String) : String :=
  String.ofList ((hexChars (Sha256.digest (generatedAt ++ hostName).toUTF8)).take 16)

end PinnedBench
