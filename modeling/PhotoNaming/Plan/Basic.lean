import PhotoNaming.FileName
import PhotoNaming.FileTree.Basic

/-!
Plans: the path that each photo is to have. Photos that would have the same name are numbered in the
order of their present paths.
-/

namespace PhotoNaming

/-- A record with the name made for it: stem, extension, and its directories below the target from
the first level to the last. -/
structure NamedRecord where
  source : Text
  stem : Text
  extension : Text
  directories : List Text
  deriving DecidableEq

namespace NamedRecord

def ofRecord (pattern : Pattern) (levels : List Pattern) (valid : List Text) (r : Record) :
    NamedRecord where
  source := r.source
  stem := (FileName.parts r pattern valid).1
  extension := (FileName.parts r pattern valid).2
  directories := FileName.directories r levels

def fileName (n : NamedRecord) : Text := n.stem ++ n.extension

def lastDirectory (n : NamedRecord) : Text := n.directories.getLastD []

/-- Records with the same key are numbered together. -/
def key (n : NamedRecord) : Text := n.lastDirectory ++ n.fileName

def precedes (a b : NamedRecord) : Bool :=
  a.key < b.key || (a.key = b.key && !(b.source < a.source))

def numberedName (number : Nat) (n : NamedRecord) : Text :=
  n.stem ++ '_' :: Text.ofNat number ++ n.extension

def target (targetDirectory : Text) (number : Nat) (n : NamedRecord) : Text :=
  Path.normal (Path.join (Path.join targetDirectory n.lastDirectory) (n.numberedName number))

end NamedRecord

structure PlannedFile where
  source : Text
  target : Text
  deriving DecidableEq

/-- The files in the order in which they are dealt with, and the directories that are missing. -/
structure Plan where
  files : List PlannedFile
  newDirectories : List Text

namespace Plan

/-- Numbers records in the order given. `next` is the number for one more record with `key`; any other
key begins again at 1. -/
def numbered (key : Option Text) (next : Nat) : List NamedRecord → List (NamedRecord × Nat)
  | [] => []
  | n :: rest =>
    let number := if key = some n.key then next else 1
    (n, number) :: numbered (some n.key) (number + 1) rest

/-- Adds a path to those that are to be made, unless it is among them or is there already. -/
def noted (tree : FileTree) (found : List Text) (path : Text) : List Text :=
  if found.contains path || tree.isDirectory path then found else found ++ [path]

def missingDirectories (tree : FileTree) (targetDirectory : Text) (records : List NamedRecord) :
    List Text :=
  ((records.flatMap (·.directories)).map (Path.join targetDirectory)).foldl (noted tree) []

def ofNamed (tree : FileTree) (targetDirectory : Text) (records : List NamedRecord) : Plan where
  files := (numbered none 1 (records.mergeSort NamedRecord.precedes)).map fun (n, number) =>
    ⟨n.source, n.target targetDirectory number⟩
  newDirectories := missingDirectories tree targetDirectory records

def ofRecords (tree : FileTree) (records : List Record) (pattern : Pattern) (levels : List Pattern)
    (targetDirectory : Text) (valid : List Text) : Plan :=
  ofNamed tree targetDirectory (records.map (NamedRecord.ofRecord pattern levels valid))

def entries (plan : Plan) : List Journal.Entry :=
  if plan.newDirectories = [] then []
  else [⟨.info, .naming,
    Text.ofNat plan.newDirectories.length ++ " new directories identified".toList⟩]

end Plan

end PhotoNaming
