import PhotoNaming.FileTree.Basic
import PhotoNaming.FileName

/-!
Finding the photos of a source: a single file, or the files of a directory with a photo's
extension.
-/

namespace PhotoNaming

structure SourceFault where
  source : Text
  deriving DecidableEq

def SourceFault.message (f : SourceFault) : Text := "Source not found: ".toList ++ f.source

namespace Source

def standardExcluded : List Text := ["@eaDir", "#recycle", ".git", "__pycache__"]

def pathBelow (path : Text) (names : List Text) : Text := names.foldl Path.join path

/-- The names of the directories in a directory that a walk goes on to. Links lead it nowhere. -/
def branches (tree : FileTree) (excluded : List Text) (place : Location) : List Text :=
  Text.sorted ((tree.names place).filter fun name =>
    tree.holdsDirectory (place ++ [name]) && !excluded.contains name)

theorem length_lt_depth {tree : FileTree} {excluded : List Text} {place : Location} {name : Text}
    (h : name ∈ branches tree excluded place) : place.length < tree.depth := by
  have hd := (List.mem_filter.mp ((List.mergeSort_perm _ _).mem_iff.mp h)).2
  rw [Bool.and_eq_true, FileTree.holdsDirectory] at hd
  split at hd
  · rename_i hl
    have hle := FileTree.length_le_depth hl
    rwa [List.length_append] at hle
  · cases hd.1

/-- The directories that a walk visits, by the names that lead to them from its top: one itself, and then
those below it, branch by branch. One whose path leads nowhere, as it is too long, is passed over. -/
def directories (tree : FileTree) (excluded : List Text) (top : Location) (source : Text)
    (names : List Text) : List (List Text) :=
  if tree.isDirectory (pathBelow source names) then
    names :: (branches tree excluded (top ++ names)).attach.flatMap fun name =>
      directories tree excluded top source (names ++ [name.1])
  else []
termination_by tree.depth - (top ++ names).length
decreasing_by
  have h := length_lt_depth name.2
  rw [← List.append_assoc, List.length_append, List.length_singleton]
  omega

/-- Whether a walk takes an entry of a directory for a directory: it is one, or a link that leads to
one. -/
def isTakenForDirectory (tree : FileTree) (place : Location) (path name : Text) : Bool :=
  tree.holdsDirectory (place ++ [name]) || tree.isDirectory (Path.join path name)

/-- Whether the entry with a name is kept in a listing. Within a walk only directories are left out,
and links that lead to one; otherwise all but files are. -/
def isListed (tree : FileTree) (recursive : Bool) (place : Location) (path name : Text) : Bool :=
  if recursive then !isTakenForDirectory tree place path name
  else tree.isFile (Path.join path name)

def photoNames (tree : FileTree) (recursive : Bool) (extensions : List Text) (top : Location)
    (source : Text) (names : List Text) : List Text :=
  let listed := isListed tree recursive (top ++ names) (pathBelow source names)
  (Text.sorted ((tree.names (top ++ names)).filter listed)).filter fun name =>
    extensions.contains (Text.lowered (Path.extension name))

def photosOf (tree : FileTree) (recursive : Bool) (extensions : List Text) (top : Location)
    (source : Text) (names : List Text) : List Text :=
  (photoNames tree recursive extensions top source names).map (Path.join (pathBelow source names))

/-- A walk reports after this many directories, and again after as many more. -/
def reportInterval : Nat := 200

private def progress (photos : List (List Text)) : List Journal.Entry :=
  (List.range (photos.length / reportInterval)).map fun i =>
    let visited := (i + 1) * reportInterval
    ⟨.info, .sources, "  Walking directories... ".toList ++ Text.ofNat visited ++
      " visited, ".toList ++ Text.ofNat ((photos.take (visited - 1)).flatten.length) ++
      " photos found".toList⟩

private def summary (photos : List (List Text)) (source : Text) : Journal.Entry :=
  ⟨.debug, .sources, "Collected ".toList ++ Text.ofNat photos.flatten.length ++
    " files from ".toList ++ Text.ofNat photos.length ++ " directories under ".toList ++ source⟩

/-- The paths of a source. A file is taken whatever its extension is; a directory gives its photos,
and if `recursive` those of the directories below. -/
def collect (tree : FileTree) (source : Text) (extensions : List Text) (recursive : Bool)
    (excluded : List Text) : Logged SourceFault (List Text) :=
  match tree.entryAt source with
  | .ok (_, .file _) => .pure [source]
  | .ok (top, .directory) =>
    let visited := if recursive then directories tree excluded top source [] else [[]]
    let photos := visited.map (photosOf tree recursive extensions top source)
    ⟨progress photos ++ [summary photos source], .ok photos.flatten⟩
  | _ => .fail ⟨source⟩

end Source

end PhotoNaming
