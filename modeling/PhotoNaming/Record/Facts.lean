import PhotoNaming.Timestamp.Format
import PhotoNaming.Catalog.Basic

/-!
What the file system tells of a photo, and the reports made of it where tags are silent.
-/

namespace PhotoNaming

/-- The time of last access, the file name in two parts and the size in bytes. A size is that of a file: numbers
of more than 4300 digits, which have no text, are left out. -/
structure Facts where
  accessed : Timestamp
  extension : Text
  stem : Text
  size : Int

namespace Facts

def reports (f : Facts) : List (Text × Text) :=
  [(dateCode, f.accessed.format "%Y:%m:%d %H:%M:%S"),
    (['f', 't'], f.extension),
    (['f', 'd'], f.extension),
    (['e', 'x'], f.extension),
    (['f', 'n'], f.stem),
    (['s', 'z'], Text.ofInt f.size)]

end Facts

end PhotoNaming
