import PhotoNaming.Plan.Basic
import PhotoNaming.FileTree.Change

/-!
Carrying out a plan: directories first, then every file is copied or moved to its path, or to the
first free one beside it. The first fault ends it.
-/

namespace PhotoNaming

/-- The last number that may be put between brackets to find a free path. -/
def maxSuffix : Nat := 99

/-- The paths to try for a target: itself, then with `(01)` to `(99)` before its extension. -/
def candidates (target : Text) : List Text :=
  target :: (List.range maxSuffix).map fun i =>
    (Path.splitExtension target).1 ++ '(' :: Text.zeroPadded 2 (i + 1) ++
      ')' :: (Path.splitExtension target).2

def freeTarget? (tree : FileTree) (target : Text) : Option Text :=
  (candidates target).find? (!tree.exists? ·)

inductive TransferFault
  | collision (target : Text)
  | file (fault : FileFault)
  deriving DecidableEq

def TransferFault.message : TransferFault → Text
  | .collision target => "Unable to find a free name for ".toList ++ target
  | .file fault => fault.message

/-- What has come of a plan: the tree, the journal, the pairs of paths that are done, and the fault
that ended it. -/
structure Transfer where
  tree : FileTree
  entries : List Journal.Entry
  done : List (Text × Text)
  fault : Option TransferFault

namespace Transfer

def behind (entries : List Journal.Entry) (done : List (Text × Text)) (t : Transfer) :
    Transfer :=
  { t with entries := entries ++ t.entries, done := done ++ t.done }

def carry (move : Bool) (tree : FileTree) (source target : Text) : Change :=
  if move then tree.move source target else tree.copy source target

private def carriedEntry (move : Bool) (source target : Text) : Journal.Entry :=
  ⟨.debug, .naming, (if move then "Moved " else "Copied ").toList ++ source ++ " => ".toList ++
    target⟩

private def failedEntries (source target : Text) (fault : FileFault) : List Journal.Entry :=
  if fault.isSystemFault then
    [⟨.error, .naming, "Failed to write ".toList ++ target ++ " from ".toList ++ source ++
      ": ".toList ++ fault.message⟩]
  else []

def files (move : Bool) (tree : FileTree) : List PlannedFile → Transfer
  | [] => ⟨tree, [], [], none⟩
  | planned :: rest =>
    match freeTarget? tree planned.target with
    | none => ⟨tree, [], [], some (.collision planned.target)⟩
    | some target =>
      let change := carry move tree planned.source target
      match change.fault with
      | some fault => ⟨change.tree, failedEntries planned.source target fault, [], some (.file fault)⟩
      | none =>
        (files move change.tree rest).behind [carriedEntry move planned.source target]
          [(planned.source, target)]

/-- Makes directories in the order given, but for those that are there already, and goes on if all
is well. -/
def directories (tree : FileTree) (next : FileTree → Transfer) : List Text → Transfer
  | [] => next tree
  | path :: rest =>
    if tree.isDirectory path then directories tree next rest
    else
      let change := tree.makeDirectories true path
      match change.fault with
      | some fault => ⟨change.tree, [], [], some (.file fault)⟩
      | none =>
        (directories change.tree next rest).behind
          [⟨.info, .naming, "Created directory ".toList ++ path⟩] []

def ofPlan (move : Bool) (tree : FileTree) (plan : Plan) : Transfer :=
  directories tree (fun tree => files move tree plan.files) (Text.sorted plan.newDirectories)

end Transfer

end PhotoNaming
