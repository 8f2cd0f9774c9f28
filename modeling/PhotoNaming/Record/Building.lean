import PhotoNaming.Record.Basic
import PhotoNaming.Record.Facts
import PhotoNaming.Journal
import PhotoNaming.Path
import PhotoNaming.Text.Lowercase

/-!
Building the record of a photo from groups of tags, with file facts for what the tags leave out.
-/

namespace PhotoNaming

/-- A named group of tags: pairs of a tag's name and its reported text. -/
structure TagGroup where
  name : Text
  tags : List (Text × Text)
  deriving DecidableEq

/-- Tags of groups with this word in their name describe the preview picture. -/
def TagGroup.isThumbnail (g : TagGroup) : Bool :=
  Text.occurs "thumbnail" (Text.lowered g.name)

namespace Record

/-- What one tag comes to: its name means nothing, its text cannot be read, or it makes a property
if that has a form in file names. -/
inductive Reading
  | unknown
  | malformed (group tag : Text) (fault : ParseFault)
  | property (p : Property)
  | unwritable (fault : DurationFault)

namespace Reading

def ofTag (catalog : Catalog) (group tag raw : Text) : Reading :=
  match catalog.byName? tag with
  | none => unknown
  | some d =>
    match Property.ofReport d raw with
    | .ok p => property p
    | .error (.unreadable fault) => malformed group tag fault
    | .error (.unwritable fault) => unwritable fault

/-- The readings of all tags, in order; thumbnail groups are left out. -/
def ofGroups (catalog : Catalog) (groups : List TagGroup) : List Reading :=
  (groups.filter (!·.isThumbnail)).flatMap fun g =>
    g.tags.map fun (tag, raw) => ofTag catalog g.name tag raw

def property? : Reading → Option Property
  | property p => some p
  | _ => none

def isUnknown : Reading → Bool
  | unknown => true
  | _ => false

def isMalformed : Reading → Bool
  | malformed .. => true
  | _ => false

def unwritable? : Reading → Option DurationFault
  | unwritable fault => some fault
  | _ => none

def report? (source : Text) : Reading → Option Journal.Entry
  | malformed group tag fault =>
    some ⟨.debug, .record, source ++ ": ".toList ++ group ++ ' ' :: tag ++ " dropped (".toList ++
      fault.message ++ [')']⟩
  | _ => none

end Reading

def ofReadings (source : Text) (readings : List Reading) : Record :=
  (readings.filterMap Reading.property?).foldl offer (empty source)

/-- The readings before the first one without a form in file names, and what is wrong with that. -/
def usable (readings : List Reading) : List Reading × Option DurationFault :=
  (readings.takeWhile (·.unwritable?.isNone), readings.findSome? Reading.unwritable?)

/-- The record that the tags alone make. Only a tag without a form in file names ends it early. -/
def gather (catalog : Catalog) (source : Text) (groups : List TagGroup) :
    Logged DurationFault Record :=
  let readings := Reading.ofGroups catalog groups
  let (before, fault) := usable readings
  ⟨before.filterMap (Reading.report? source),
    match fault with
    | some fault => .error fault
    | none => .ok (ofReadings source readings)⟩

/-- Adds the property of a file fact unless its code is taken or unknown. -/
def supply (catalog : Catalog) (r : Record) (code raw : Text) : Logged DurationFault Record :=
  if r.contains code then .pure r
  else
    match catalog.byCode? code with
    | none => .pure r
    | some d =>
      match Property.ofReport d raw with
      | .ok p => .pure (r.put p)
      | .error (.unwritable fault) => .fail fault
      | .error (.unreadable fault) =>
        ⟨[⟨.debug, .record, r.source ++ ": default $".toList ++ code ++ " dropped (".toList ++
          fault.message ++ [')']⟩], .ok r⟩

def supplyAll (catalog : Catalog) (r : Record) : List (Text × Text) → Logged DurationFault Record
  | [] => .pure r
  | (code, raw) :: rest => (supply catalog r code raw).bind fun r => supplyAll catalog r rest

private def summary (catalog : Catalog) (groups : List TagGroup) (r : Record) : Journal.Entry :=
  let readings := Reading.ofGroups catalog groups
  ⟨.debug, .record, Path.fileName r.source ++ ": ".toList ++ Text.ofNat r.size ++
    " properties (".toList ++ Text.ofNat (readings.countP (·.isUnknown)) ++
    " unknown tags, ".toList ++ Text.ofNat (readings.countP (·.isMalformed)) ++
    " malformed values)".toList⟩

def complete (catalog : Catalog) (groups : List TagGroup) (facts : Facts) (r : Record) :
    Logged DurationFault Record :=
  (supplyAll catalog r facts.reports).bind fun r => ⟨[summary catalog groups r], .ok r⟩

def build (catalog : Catalog) (source : Text) (groups : List TagGroup) (facts : Facts) :
    Logged DurationFault Record :=
  (gather catalog source groups).bind (complete catalog groups facts)

end Record

end PhotoNaming
