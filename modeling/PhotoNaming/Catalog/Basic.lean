import PhotoNaming.Catalog.Descriptor

/-!
Catalogs of properties: lookup by code, by display name and by the other reported names.
-/

namespace PhotoNaming

/-- The code of the date, the one that may carry a date pattern. -/
def dateCode : Text := ['d', 't']

/-- The properties in the order given, and the codes that statistics leave out. -/
structure Catalog where
  descriptors : List Descriptor
  excluded : List Text

inductive CatalogFault
  | codeLength (code : Text)
  | repeatedCode (code : Text)
  | repeatedName (name : Text)
  deriving DecidableEq

def CatalogFault.message : CatalogFault → Text
  | .codeLength code => "Property code must be 2 characters: ".toList ++ Text.quoted code
  | .repeatedCode code => "Duplicate property code: ".toList ++ code
  | .repeatedName name => "Duplicate property name: ".toList ++ name

namespace Catalog

def faultBehind? (earlier : List Descriptor) (d : Descriptor) : Option CatalogFault :=
  if d.code.length ≠ 2 then some (.codeLength d.code)
  else if earlier.any (·.code = d.code) then some (.repeatedCode d.code)
  else if earlier.any (·.name = d.name) then some (.repeatedName d.name)
  else none

def firstFault? (earlier : List Descriptor) : List Descriptor → Option CatalogFault
  | [] => none
  | d :: rest => (faultBehind? earlier d).or (firstFault? (earlier ++ [d]) rest)

def ofDescriptors (descriptors : List Descriptor) (excluded : List Text) :
    Except CatalogFault Catalog :=
  match firstFault? [] descriptors with
  | some fault => .error fault
  | none => .ok ⟨descriptors, excluded⟩

def byCode? (c : Catalog) (code : Text) : Option Descriptor :=
  c.descriptors.find? (·.code = code)

def contains (c : Catalog) (code : Text) : Bool := (c.byCode? code).isSome

/-- The property with a display name, or else the first one that is also reported under it. -/
def byName? (c : Catalog) (name : Text) : Option Descriptor :=
  (c.descriptors.find? (·.name = name)).or (c.descriptors.find? (·.aliases.contains name))

def isExcluded (c : Catalog) (code : Text) : Bool := c.excluded.contains code

def size (c : Catalog) : Nat := c.descriptors.length

def byAscendingCode (c : Catalog) : List Descriptor :=
  c.descriptors.mergeSort fun a b => decide (¬ b.code < a.code)

private def helpLine (d : Descriptor) : Text :=
  '$' :: d.code ++
    if d.code = dateCode then
      "[format]\t".toList ++ d.name ++ " (format uses yyyy, MM, dd, HH, mm, ss ...)".toList
    else "\t\t".toList ++ d.name

def help (c : Catalog) : Text :=
  Text.joinWith ['\n']
    ("The following codes are valid for the file and directory patterns. Sequence numbers are automatically added.".toList ::
      [] :: c.byAscendingCode.map helpLine) ++ ['\n']

def text (c : Catalog) : Text := Text.joinWith [';'] (c.descriptors.map (·.text))

end Catalog

end PhotoNaming
