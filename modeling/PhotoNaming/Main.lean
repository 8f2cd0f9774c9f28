import PhotoNaming.Session.Program
import Std.Time.DateTime.Timestamp

/-!
The command line. What lies below the working directory and below the paths among the arguments is
read into a tree, the program is called on that tree, and what it did there is done to the files.
Tags embedded in photos are not decoded here.
-/

namespace PhotoNaming.Disk

private def pathOf (place : Location) : String :=
  String.ofList ('/' :: Text.joinWith ['/'] place)

private def placeOf (path : String) : Location := (path.toList.splitOn '/').filter (· ≠ [])

/-- Files up to this size are read, to find out whether they are text. -/
private def maxTextSize : Nat := 65536

private def nanoseconds (time : IO.FS.SystemTime) : Int := time.sec * 1000000000 + time.nsec.toNat

/-- What a place holds, links not followed; nothing for what cannot be read. -/
private def entryOf (place : Location) : IO (Option Entry) := do
  try
    let path ← IO.FS.realPath (pathOf place.dropLast)
    let path := path / String.ofList (place.getLastD [])
    let found ← path.symlinkMetadata
    match found.type with
    | .dir => return some .directory
    | .symlink => return some (.link (← IO.FS.realPath path).toString.toList)
    | .other => return some (.special (nanoseconds found.accessed))
    | .file =>
      let size := found.byteSize.toNat
      let content ← if size ≤ maxTextSize then IO.FS.readBinFile path else pure .empty
      return some <| .file
        { content := ((String.fromUTF8? content).getD "").toList
          size := size
          accessed := nanoseconds found.accessed
          tags := .ok [] }
  catch _ => return none

private partial def entriesFrom (place : Location) : IO (List (Location × Entry)) := do
  match ← entryOf place with
  | none => return []
  | some .directory =>
    let path ← IO.FS.realPath (pathOf place)
    let names ← try path.readDir catch _ => pure #[]
    let below ← names.toList.mapM fun entry => entriesFrom (place ++ [entry.fileName.toList])
    return (place, .directory) :: below.flatten
  | some entry => return [(place, entry)]

private def above (place : Location) : List (Location × Entry) :=
  (List.range place.length).map fun n => (place.take n, .directory)

private def tree (working : Location) (arguments : List String) : IO FileTree := do
  let starts := working ::
    arguments.map fun path => placeOf (String.ofList (Path.absolute (pathOf working) path.toList))
  let found ← starts.mapM entriesFrom
  let entries := (starts.flatMap above ++ found.flatten).filter (·.1 ≠ [])
  return ⟨entries.foldl (fun done e => if done.any (·.1 = e.1) then done else done ++ [e]) [],
    working⟩

private def carryOut (before : FileTree) (outcome : Outcome) : IO Unit := do
  for (place, entry) in outcome.tree.entries do
    match entry with
    | .directory => if (before.lookup? place).isNone then IO.FS.createDirAll (pathOf place)
    | _ => pure ()
  for (source, target) in outcome.done do
    if outcome.moved then IO.FS.rename (String.ofList source) (String.ofList target)
    else IO.FS.writeBinFile (String.ofList target) (← IO.FS.readBinFile (String.ofList source))
  match outcome.log with
  | none => pure ()
  | some (path, lines) =>
    let file ← IO.FS.Handle.mk (String.ofList path) .append
    file.putStr (String.ofList lines)

private def stamp : IO Text := do
  let now ← Std.Time.Timestamp.now
  match Timestamp.ofEpochSeconds now.toSecondsSinceUnixEpoch.val with
  | .ok t => return t.format "%Y-%m-%d %H:%M:%S"
  | .error _ => return []

private def secondsText (milliseconds : Nat) : Text :=
  let tenths := (milliseconds + 50) / 100
  Text.ofNat (tenths / 10) ++ '.' :: Text.ofNat (tenths % 10) ++ ['s']

/-- Calls the program on the files below the working directory. Reading them is what takes time. -/
def call (arguments : List String) : IO UInt32 := do
  let working := placeOf (← IO.currentDir).toString
  let start ← IO.monoMsNow
  let before ← tree working arguments
  let elapsed := secondsText ((← IO.monoMsNow) - start)
  let outcome := Program.call ⟨← stamp, elapsed⟩ before (arguments.map String.toList)
  for t in outcome.output do
    IO.println (String.ofList t)
  carryOut before outcome
  match outcome.ending with
  | .exit code => return UInt32.ofNat code
  | .fault fault =>
    IO.eprintln (String.ofList fault.message)
    return 1

end PhotoNaming.Disk

def main (arguments : List String) : IO UInt32 := PhotoNaming.Disk.call arguments
