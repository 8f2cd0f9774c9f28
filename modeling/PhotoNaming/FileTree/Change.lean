import PhotoNaming.FileTree.Basic
import PhotoNaming.Text.Quoted

/-!
Changing file trees: making directories, copying and moving. A change that fails leaves what it had
done so far.
-/

namespace PhotoNaming

/-- Why an operation on files fails. Refusals name the paths of the call. A path with a null
character never gets as far as the file system. -/
inductive FileFault
  | refused (refusal : Refusal) (path : Text)
  | refusedPair (refusal : Refusal) (source target : Text)
  | nullCharacter
  | intoItself (source target : Text)
  deriving DecidableEq

namespace FileFault

private def refusalText (r : Refusal) : Text :=
  "[Errno ".toList ++ Text.ofNat r.number ++ "] ".toList ++ r.meaning ++ ": ".toList

def message : FileFault → Text
  | refused r path => refusalText r ++ Text.quoted path
  | refusedPair r source target =>
    refusalText r ++ Text.quoted source ++ " -> ".toList ++ Text.quoted target
  | nullCharacter => "embedded null byte"
  | intoItself source target =>
    "Cannot move a directory '".toList ++ source ++ "' into itself '".toList ++ target ++
      "'.".toList

/-- Whether the file system itself complains; all but a null character count. -/
def isSystemFault : FileFault → Bool
  | nullCharacter => false
  | _ => true

def onPath (path : Text) (refusal : Refusal) : FileFault :=
  if path.contains '\x00' then nullCharacter else refused refusal path

end FileFault

/-- A tree after a change, and the fault that ended it, if any. -/
structure Change where
  tree : FileTree
  fault : Option FileFault

namespace Change

def andThen (change : Change) (next : FileTree → Change) : Change :=
  match change.fault with
  | some _ => change
  | none => next change.tree

end Change

namespace FileTree

def inserted (tree : FileTree) (place : Location) (entry : Entry) : FileTree :=
  { tree with entries := tree.entries ++ [(place, entry)] }

def replaced (tree : FileTree) (place : Location) (entry : Entry) : FileTree :=
  { tree with
    entries := tree.entries.map fun (other, old) =>
      (other, if other = place then entry else old) }

/-- The tree without the entry at a place and all below it. -/
def removed (tree : FileTree) (place : Location) : FileTree :=
  { tree with entries := tree.entries.filter fun (other, _) => !place.isPrefixOf other }

def relocated (tree : FileTree) (source target : Location) : FileTree :=
  if source = target then tree
  else
    { tree with
      entries := (tree.removed target).entries.map fun (place, entry) =>
        (if source.isPrefixOf place then target ++ place.drop source.length else place, entry) }

/-- Makes one directory. Slashes at the end of the path count for its length only. -/
def makeDirectory (tree : FileTree) (path : Text) : Change :=
  if maxPathBytes < byteCount path then ⟨tree, some (FileFault.onPath path .nameTooLong)⟩
  else
    match tree.locate false (Path.bare path) with
    | .ok (.free place) => ⟨tree.inserted place .directory, none⟩
    | .ok (.found ..) => ⟨tree, some (FileFault.onPath path .present)⟩
    | .error refusal => ⟨tree, some (FileFault.onPath path refusal)⟩

/-- Makes a directory above another one, if it is missing. What stands in its way will stand in the
way of the other one too. -/
def makeAbove (tree : FileTree) (path : Text) : Change :=
  if tree.exists? path then ⟨tree, none⟩
  else
    match (tree.makeDirectory path).fault with
    | some (.refused .present _) => ⟨tree, none⟩
    | _ => tree.makeDirectory path

def makeAllAbove (tree : FileTree) : List Text → Change
  | [] => ⟨tree, none⟩
  | path :: rest => (tree.makeAbove path).andThen fun tree => makeAllAbove tree rest

/-- Makes a directory and those above it that are missing. A directory that is there already is as
good as a new one if `reuse` says so. -/
def makeDirectories (tree : FileTree) (reuse : Bool) (path : Text) : Change :=
  (tree.makeAllAbove (Path.above path)).andThen fun tree =>
    if reuse ∧ tree.isDirectory path then ⟨tree, none⟩ else tree.makeDirectory path

def readFile (tree : FileTree) (path : Text) : Except FileFault FileData :=
  match tree.entryAt path with
  | .ok (_, .file data) => .ok data
  | .ok (_, .special _) => .error (FileFault.onPath path .noDevice)
  | .ok _ => .error (FileFault.onPath path .isDirectory)
  | .error refusal => .error (FileFault.onPath path refusal)

/-- Writes a file where a path leads, through a link at its end. -/
def writeFile (tree : FileTree) (path : Text) (data : FileData) : Change :=
  match tree.locate true path with
  | .ok (.free place) => ⟨tree.inserted place (.file data), none⟩
  | .ok (.found place (.file _)) => ⟨tree.replaced place (.file data), none⟩
  | .ok (.found _ (.special _)) => ⟨tree, some (FileFault.onPath path .noDevice)⟩
  | .ok (.found ..) => ⟨tree, some (FileFault.onPath path .isDirectory)⟩
  | .error refusal => ⟨tree, some (FileFault.onPath path refusal)⟩

def copy (tree : FileTree) (source target : Text) : Change :=
  match tree.readFile source with
  | .ok data => tree.writeFile target data
  | .error fault => ⟨tree, some fault⟩

def endsInDots (path : Text) : Bool :=
  Path.fileName path = ['.'] || Path.fileName path = ['.', '.']

/-- Gives an entry another path, within the file system. A link at the end of either path is the
entry itself, and one at the end of the new path gives way. -/
def rename (tree : FileTree) (source target : Text) : Except Refusal FileTree := do
  match ← tree.locate false source, ← tree.locate false target with
  | .free _, _ => .error .notFound
  | .found .., .found _ .directory => .error .isDirectory
  | .found old .directory, .free new =>
    if endsInDots source ∨ old = [] then .error .busy
    else if old.isPrefixOf new then .error .invalid
    else return tree.relocated old new
  | .found _ .directory, .found .. => .error .notDirectory
  | .found old _, .free new => return tree.relocated old new
  | .found old _, .found new _ => return tree.relocated old new

def relink (tree : FileTree) (source target destination : Text) : Change :=
  match tree.locate false target with
  | .ok (.free place) =>
    match tree.locate false source with
    | .ok (.found old _) => ⟨(tree.inserted place (.link destination)).removed old, none⟩
    | _ => ⟨tree, none⟩
  | .ok (.found ..) => ⟨tree, some (.refusedPair .present destination target)⟩
  | .error refusal => ⟨tree, some (.refusedPair refusal destination target)⟩

/-- Moves a directory by making its new place, with those above it, and taking its entries there. -/
def rebuild (tree : FileTree) (source target : Text) : Change :=
  let old := tree.absolute source ++ ['/']
  if old.isPrefixOf (tree.absolute target ++ ['/']) then ⟨tree, some (.intoItself source target)⟩
  else
    (tree.makeDirectories false target).andThen fun tree =>
      match tree.locate true source, tree.locate true target with
      | .ok (.found old _), .ok (.found new _) => ⟨tree.relocated old new, none⟩
      | _, _ => ⟨tree, none⟩

def discard (tree : FileTree) (path : Text) : Change :=
  match tree.locate false path with
  | .ok (.found place _) => ⟨tree.removed place, none⟩
  | .ok (.free _) => ⟨tree, some (FileFault.onPath path .notFound)⟩
  | .error refusal => ⟨tree, some (FileFault.onPath path refusal)⟩

/-- Moves an entry by giving it another path. Where that is refused, a link is made anew, a
directory is built anew, and a file is copied before it is taken away. -/
def move (tree : FileTree) (source target : Text) : Change :=
  match tree.rename source target with
  | .ok tree => ⟨tree, none⟩
  | .error _ =>
    match tree.linkTarget? source with
    | some destination => tree.relink source target destination
    | none =>
      if tree.isDirectory source then tree.rebuild source target
      else (tree.copy source target).andThen (·.discard source)

/-- A line per directory, file and link, by path: directories end with a slash. -/
def listing (tree : FileTree) (below : Location) : List (Text × Option Text) :=
  let lines := tree.entries.filterMap fun (place, entry) =>
    if below.isPrefixOf place ∧ below ≠ place then
      let path := Text.joinWith ['/'] (place.drop below.length)
      some <| match entry with
        | .directory => (path ++ ['/'], none)
        | .file data => (path, some data.content)
        | .special _ => (path, none)
        | .link target => (path, some ("->".toList ++ target))
    else none
  lines.mergeSort fun a b => decide (¬ b.1 < a.1)

end FileTree

end PhotoNaming
