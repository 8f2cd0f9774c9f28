import PhotoNaming.Record.Facts
import PhotoNaming.Binary64.Basic
import PhotoNaming.FileTree.Change

/-!
File facts taken from a file tree.
-/

namespace PhotoNaming

namespace Timestamp

/-- The start of a day, counted from the first of January 1970, moved by some seconds. Years are
counted in cycles of 400, from March to February. -/
def ofEpochSeconds (seconds : Int) : Except CalendarFault Timestamp :=
  let days := seconds.fdiv 86400 + 719468
  let clock := (seconds.fmod 86400).toNat
  let cycle := days.fdiv 146097
  let day := (days.fmod 146097).toNat
  let yearOfCycle := (day - day / 1460 + day / 36524 - day / 146096) / 365
  let dayOfYear := day - (365 * yearOfCycle + yearOfCycle / 4 - yearOfCycle / 100)
  let march := (5 * dayOfYear + 2) / 153
  let month := if march < 10 then march + 3 else march - 9
  let year := cycle * 400 + yearOfCycle + (if month ≤ 2 then 1 else 0 : Nat)
  ofParts year month (dayOfYear - (153 * march + 2) / 5 + 1 : Nat) (clock / 3600 : Nat)
    (clock % 3600 / 60 : Nat) (clock % 60 : Nat) 0

end Timestamp

namespace Facts

private def secondUnits (nanoseconds : Int) : Int :=
  let part := Binary64.nearestUnits ((nanoseconds.fmod 1000000000).toNat *
    Binary64.nearestUnits Binary64.one 1000000000) 1
  let sum := nanoseconds.fdiv 1000000000 * (Binary64.one : Nat) + part
  sum.sign * Binary64.nearestUnits sum.natAbs 1

/-- The second of a time in nanoseconds, which is first taken as a binary64 number of seconds and
rounded to microseconds. -/
def wholeSeconds (nanoseconds : Int) : Int :=
  let units := secondUnits nanoseconds
  let whole := units.natAbs / Binary64.one
  let part := Binary64.roundedQuotient
    (Binary64.nearestUnits (units.natAbs % Binary64.one * 1000000) 1) Binary64.one
  if units < 0 then if part = 0 then -whole else -whole - 1
  else if part < 1000000 then whole else whole + 1

inductive Fault
  | file (fault : FileFault)
  | calendar (fault : CalendarFault)
  deriving DecidableEq

def Fault.message : Fault → Text
  | .file fault => fault.message
  | .calendar fault => fault.message

private def directorySize : Nat := 4096

def ofPath (tree : FileTree) (path : Text) : Except Fault Facts := do
  let (accessed, size) ← match tree.entryAt path with
    | .ok (_, .file data) => .ok (data.accessed, data.size)
    | .ok (_, .special accessed) => .ok (accessed, 0)
    | .ok _ => .ok (0, directorySize)
    | .error refusal => .error (.file (FileFault.onPath path refusal))
  let accessed ← (Timestamp.ofEpochSeconds (wholeSeconds accessed)).mapError .calendar
  return { accessed, extension := (Path.extension path).drop 1, stem := Path.stem path, size }

end Facts

end PhotoNaming
