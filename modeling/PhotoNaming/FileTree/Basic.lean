import PhotoNaming.Tag.Basic
import PhotoNaming.Path

/-!
File trees held in memory: directories, files and symbolic links by their place below the root, and
the way a path leads through them.
-/

namespace PhotoNaming

/-- A place: the names on the way from the root. -/
abbrev Location := List Text

/-- A file: its content as far as that is text, the number of its bytes, the time of its last access
in nanoseconds since 1970, and the tags embedded in it or the complaint of their decoder. -/
structure FileData where
  content : Text
  size : Nat
  accessed : Int
  tags : Except Text (List (Text × Tag))

def byteCount : Text → Nat
  | [] => 0
  | c :: rest => c.utf8Size + byteCount rest

def FileData.ofText (content : Text) (accessed : Int) : FileData where
  content := content
  size := byteCount content
  accessed := accessed
  tags := .ok []

/-- What stands at a place. A special entry is none of the others and cannot be opened, as a socket; what
is known of it is the time of its last access. -/
inductive Entry
  | directory
  | file (data : FileData)
  | special (accessed : Int)
  | link (target : Text)

/-- The entries by place, none twice, and the place that relative paths start from. The root is
always a directory. -/
structure FileTree where
  entries : List (Location × Entry)
  working : Location

inductive Refusal
  | notFound
  | noDevice
  | busy
  | present
  | notDirectory
  | isDirectory
  | invalid
  | nameTooLong
  | tooManyLinks
  deriving DecidableEq

namespace Refusal

def number : Refusal → Nat
  | notFound => 2
  | noDevice => 6
  | busy => 16
  | present => 17
  | notDirectory => 20
  | isDirectory => 21
  | invalid => 22
  | nameTooLong => 36
  | tooManyLinks => 40

def meaning : Refusal → Text
  | notFound => "No such file or directory"
  | noDevice => "No such device or address"
  | busy => "Device or resource busy"
  | present => "File exists"
  | notDirectory => "Not a directory"
  | isDirectory => "Is a directory"
  | invalid => "Invalid argument"
  | nameTooLong => "File name too long"
  | tooManyLinks => "Too many levels of symbolic links"

end Refusal

namespace FileTree

def lookup? (tree : FileTree) (place : Location) : Option Entry :=
  if place = [] then some .directory
  else (tree.entries.find? (·.1 = place)).map (·.2)

/-- Whether a directory stands at a place itself, and no link to one. -/
def holdsDirectory (tree : FileTree) (place : Location) : Bool :=
  match tree.lookup? place with
  | some .directory => true
  | _ => false

def depth (tree : FileTree) : Nat :=
  tree.entries.foldr (fun e longest => max e.1.length longest) 0

/-- Where a path leads: to an entry, or to a name that is free in a directory. -/
inductive Destination
  | found (place : Location) (entry : Entry)
  | free (place : Location)

def maxLinks : Nat := 40

def maxNameBytes : Nat := 255

def maxPathBytes : Nat := 4095

/-- Where the path parts `todo` lead from the directory at `place`, when `links` more links may be
followed. A link at the very end is followed only if `follow` says so. -/
def lead (tree : FileTree) (follow : Bool) (links : Nat) (place : Location) (todo : List Text) :
    Except Refusal Destination :=
  match todo with
  | [] => .ok (.found place .directory)
  | part :: rest =>
    if part = [] ∨ part = ['.'] then lead tree follow links place rest
    else if part = ['.', '.'] then lead tree follow links place.dropLast rest
    else if maxNameBytes < byteCount part then .error .nameTooLong
    else
      match tree.lookup? (place ++ [part]) with
      | none => if rest = [] then .ok (.free (place ++ [part])) else .error .notFound
      | some .directory => lead tree follow links (place ++ [part]) rest
      | some (.file data) =>
        if rest = [] then .ok (.found (place ++ [part]) (.file data)) else .error .notDirectory
      | some (.special accessed) =>
        if rest = [] then .ok (.found (place ++ [part]) (.special accessed)) else .error .notDirectory
      | some (.link target) =>
        if rest = [] ∧ !follow then .ok (.found (place ++ [part]) (.link target))
        else
          match links with
          | 0 => .error .tooManyLinks
          | links + 1 =>
            lead tree follow links (if Path.isAbsolute target then [] else place)
              (Path.parts target ++ rest)
termination_by (links, todo.length)

/-- Where a path leads. A path with a null character is no path at all, which counts as an invalid
argument. -/
def locate (tree : FileTree) (follow : Bool) (path : Text) : Except Refusal Destination :=
  if path.contains '\x00' then .error .invalid
  else if path = [] then .error .notFound
  else if maxPathBytes < byteCount path then .error .nameTooLong
  else
    lead tree follow maxLinks (if Path.isAbsolute path then [] else tree.working) (Path.parts path)

def entryAt (tree : FileTree) (path : Text) : Except Refusal (Location × Entry) :=
  match tree.locate true path with
  | .ok (.found place entry) => .ok (place, entry)
  | .ok (.free _) => .error .notFound
  | .error refusal => .error refusal

def exists? (tree : FileTree) (path : Text) : Bool := (tree.entryAt path).toOption.isSome

def isDirectory (tree : FileTree) (path : Text) : Bool :=
  match tree.entryAt path with
  | .ok (_, .directory) => true
  | _ => false

def isFile (tree : FileTree) (path : Text) : Bool :=
  match tree.entryAt path with
  | .ok (_, .file _) => true
  | _ => false

def linkTarget? (tree : FileTree) (path : Text) : Option Text :=
  match tree.locate false path with
  | .ok (.found _ (.link target)) => some target
  | _ => none

def names (tree : FileTree) (place : Location) : List Text :=
  tree.entries.filterMap fun (other, _) =>
    if other.dropLast = place then other.getLast? else none

theorem length_le_depth {tree : FileTree} {place : Location} {entry : Entry}
    (h : tree.lookup? place = some entry) : place.length ≤ tree.depth := by
  have longest (entries : List (Location × Entry)) (e : Location × Entry) (he : e ∈ entries) :
      e.1.length ≤ entries.foldr (fun e longest => max e.1.length longest) 0 := by
    induction entries with
    | nil => cases he
    | cons first rest ih =>
      rw [List.foldr_cons]
      rcases List.mem_cons.mp he with rfl | he
      · exact Nat.le_max_left _ _
      · exact Nat.le_trans (ih he) (Nat.le_max_right _ _)
  rw [lookup?] at h
  split at h
  · rename_i hp
    rw [hp]
    exact Nat.zero_le _
  · obtain ⟨e, he, rfl⟩ := Option.map_eq_some_iff.mp h
    have hp : e.1 = place := by simpa using List.find?_some he
    rw [← hp]
    exact longest _ e (List.mem_of_find?_eq_some he)

/-- Where a path from the working directory stands in the whole tree, as a text. -/
def absolute (tree : FileTree) (path : Text) : Text :=
  Path.absolute ('/' :: Text.joinWith ['/'] tree.working) path

end FileTree

end PhotoNaming
