import PhotoNaming.Record.Stat
import PhotoNaming.Tag.Description
import PhotoNaming.Tally

/-!
Scanning photos: each file becomes a record, and the records are counted.
-/

namespace PhotoNaming

inductive ScanFault
  | facts (fault : Facts.Fault)
  | unwritable (fault : DurationFault)
  deriving DecidableEq

namespace ScanFault

def message : ScanFault → Text
  | facts fault => fault.message
  | unwritable fault => fault.message

def isSystemFault : ScanFault → Bool
  | facts (.file fault) => fault.isSystemFault
  | _ => false

end ScanFault

namespace Scan

inductive TagsFault
  | file (fault : FileFault)
  | decoder (complaint : Text)
  | limit (reached : TagLimit)

def TagsFault.message : TagsFault → Text
  | .file fault => fault.message
  | .decoder complaint => complaint
  | .limit reached => reached.message

def tagGroups (tree : FileTree) (path : Text) : Logged TagsFault (List TagGroup) :=
  match tree.readFile path with
  | .error fault => .fail (.file fault)
  | .ok data =>
    match data.tags with
    | .error complaint => .fail (.decoder complaint)
    | .ok tags => (TagGroup.ofTags tags).mapError .limit

/-- The groups of a file's tags. A file without readable tags has none. -/
def groupsOrNone (tree : FileTree) (path : Text) : Logged ScanFault (List TagGroup) :=
  let groups := tagGroups tree path
  match groups.result with
  | .ok found => ⟨groups.entries, .ok found⟩
  | .error fault =>
    ⟨groups.entries ++ [⟨.warning, .sources, "Failed to read metadata from ".toList ++ path ++
      ": ".toList ++ fault.message⟩], .ok []⟩

def file (tree : FileTree) (catalog : Catalog) (path : Text) : Logged ScanFault Record := do
  let facts ← Logged.ofExcept ((Facts.ofPath tree path).mapError .facts)
  let groups ← groupsOrNone tree path
  (Record.build catalog path groups facts).mapError .unwritable

def fileWithTags (tree : FileTree) (catalog : Catalog) (path : Text) (groups : List TagGroup) :
    Logged ScanFault Record := do
  let r ← (Record.gather catalog path groups).mapError .unwritable
  let facts ← Logged.ofExcept ((Facts.ofPath tree path).mapError .facts)
  (Record.complete catalog groups facts r).mapError .unwritable

/-- The order in which the scans of some files are completed: the places of the files, each once. -/
structure Completion where
  order (n : Nat) : List (Fin n)
  perm (n : Nat) : (order n).Perm (List.finRange n)

namespace Completion

def inTurn : Completion := ⟨List.finRange, fun _ => .refl _⟩

def arranged {α : Type} (c : Completion) (as : List α) : List α := (c.order as.length).map as.get

end Completion

/-- How long a scan takes, and in which order its parts are completed. -/
structure Course where
  elapsed : Text
  completion : Completion

/-- The records up to the first fault, and that fault with its path. -/
def untilFault : List (Text × Except ScanFault Record) → List Record × Option (Text × ScanFault)
  | [] => ([], none)
  | (_, .ok r) :: rest => (r :: (untilFault rest).1, (untilFault rest).2)
  | (path, .error fault) :: _ => ([], some (path, fault))

/-- A scan of many files: the journal, the records in the order of the files, those of them that were
completed before the first fault, in that order, and the fault. -/
structure Outcome where
  entries : List Journal.Entry
  records : List Record
  counted : List Record
  fault : Option ScanFault

def threads (workers : Number) (files : Nat) : Number :=
  let wanted := if (Number.integer files).Before workers then .integer files else workers
  if (Number.integer 1).Before wanted then wanted else .integer 1

/-- What the end of a scan leaves in the journal. Only a fault of the file system is reported. -/
def ending (elapsed : Text) (files : Nat) : Option (Text × ScanFault) → List Journal.Entry
  | none =>
    [⟨.info, .scan, "Done parsing: ".toList ++ Text.ofNat files ++ " files in ".toList ++ elapsed⟩]
  | some (path, fault) =>
    if fault.isSystemFault then
      [⟨.error, .scan, "Scan failed for ".toList ++ path ++ ": ".toList ++ fault.message⟩]
    else []

/-- Scans all files, whatever becomes of each, and takes the results as they are completed. -/
def run (tree : FileTree) (catalog : Catalog) (course : Course) (workers : Number)
    (paths : List Text) : Outcome :=
  if paths = [] then ⟨[], [], [], none⟩
  else
    let scans := paths.map fun path => (path, file tree catalog path)
    let results := scans.map fun (path, scan) => (path, scan.result)
    let (counted, fault) := untilFault (course.completion.arranged results)
    let opening : Journal.Entry :=
      ⟨.info, .scan, "Parsing properties of ".toList ++ Text.ofNat paths.length ++
        " files with ".toList ++ (threads workers paths.length).text ++ " threads...".toList⟩
    { entries := opening :: scans.flatMap (·.2.entries) ++ ending course.elapsed paths.length fault
      records := results.filterMap (·.2.toOption)
      counted
      fault := fault.map (·.2) }

def files (tree : FileTree) (catalog : Catalog) (elapsed : Text) (workers : Number)
    (paths : List Text) : Outcome :=
  run tree catalog ⟨elapsed, .inTurn⟩ workers paths

def Outcome.tally (o : Outcome) (catalog : Catalog) : Tally :=
  o.counted.foldl (Tally.count catalog) .empty

end Scan

end PhotoNaming
