import PhotoNaming.Catalog.Basic

/-!
Records of photos: at most one property for each code, in the order in which the codes came up.
-/

namespace PhotoNaming

/-- A property of one photo: the reported text, its value and its form in file names. -/
structure Property where
  code : Text
  name : Text
  raw : Text
  value : Value
  fileText : Text
  deriving DecidableEq

/-- Why a reported text makes no property: it cannot be read, or its value has no form in file
names. -/
inductive PropertyFault
  | unreadable (fault : ParseFault)
  | unwritable (fault : DurationFault)
  deriving DecidableEq

namespace Property

def ofReport (d : Descriptor) (raw : Text) : Except PropertyFault Property := do
  let value ← (d.parse raw).mapError .unreadable
  let fileText ← (d.format.fileText value).mapError .unwritable
  return { code := d.code, name := d.name, raw, value, fileText }

def text (p : Property) : Text :=
  '$' :: p.code ++ ": ".toList ++ p.name ++ " = ".toList ++ p.raw ++ " (".toList ++
    p.value.fullText ++ " => ".toList ++ p.fileText ++ [')']

end Property

structure Record where
  source : Text
  properties : List Property
  deriving DecidableEq

namespace Record

def empty (source : Text) : Record := ⟨source, []⟩

def property? (r : Record) (code : Text) : Option Property := r.properties.find? (·.code = code)

def contains (r : Record) (code : Text) : Bool := (r.property? code).isSome

def size (r : Record) : Nat := r.properties.length

def fileText (r : Record) (code : Text) : Text :=
  match r.property? code with
  | some p => p.fileText
  | none => []

/-- Puts `p` in place of the property with its code, or at the end. -/
def put (r : Record) (p : Property) : Record :=
  if r.contains p.code then
    { r with properties := r.properties.map fun q => if q.code = p.code then p else q }
  else { r with properties := r.properties ++ [p] }

/-- Whether `p` is taken when offered: its code is new, or its value supersedes the one held. -/
def accepts (r : Record) (p : Property) : Bool :=
  match r.property? p.code with
  | some held => p.value.Supersedes held.value
  | none => true

def offer (r : Record) (p : Property) : Record := if r.accepts p then r.put p else r

def text (r : Record) : Text :=
  Text.joinWith ['\n'] (r.source :: r.properties.map (·.text))

end Record

end PhotoNaming
