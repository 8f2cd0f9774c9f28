import PhotoNaming.Pattern.Compiled
import PhotoNaming.Path
import PhotoNaming.Text.Lowercase

/-!
File names and directory levels made from patterns: no character that file names cannot have, and
always a photo's extension.
-/

namespace PhotoNaming.FileName

def isForbidden (c : Char) : Bool := c.toNat < 0x20 || "/\\:*?\"<>|".toList.contains c

def sanitized (t : Text) : Text := t.map fun c => if isForbidden c then '_' else c

/-- One directory level; spaces and dots alone, or nothing, become `_`. -/
def level (t : Text) : Text :=
  if (sanitized t).all (fun c => c = ' ' || c = '.') then ['_'] else sanitized t

def standardExtensions : List Text := [".arw", ".raw", ".jpg", ".jpeg", ".tif", ".tiff"]

def normalExtensions (extensions : List Text) : List Text :=
  (extensions.map fun e =>
    if e.head? = some '.' then Text.lowered e else '.' :: Text.lowered e).eraseDups

/-- Stem and extension of a photo's new name before it is numbered. An extension that the pattern
writes is kept if it is a valid one; otherwise dots become `_` and the photo keeps its own. -/
def parts (r : Record) (pattern : Pattern) (valid : List Text) : Text × Text :=
  let name := sanitized (pattern.render r)
  let (stem, extension) := Path.splitExtension name
  if extension ≠ [] ∧ Text.lowered extension ∈ valid then (stem, extension)
  else (name.map fun c => if c = '.' then '_' else c, Path.extension r.source)

def ofRecord (r : Record) (pattern : Pattern) (valid : List Text) : Text :=
  (parts r pattern valid).1 ++ (parts r pattern valid).2

/-- Directories one below the other from `path` on, each with a slash at its end. -/
def nested (path : Text) : List Text → List Text
  | [] => []
  | name :: rest => (path ++ name ++ ['/']) :: nested (path ++ name ++ ['/']) rest

def directories (r : Record) (levels : List Pattern) : List Text :=
  nested [] (levels.map fun p => level (p.render r))

end PhotoNaming.FileName
