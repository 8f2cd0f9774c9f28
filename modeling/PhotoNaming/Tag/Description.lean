import PhotoNaming.Tag.Basic
import PhotoNaming.Record.Building

/-!
Reporting embedded tags as text: exposure times with a unit, f-numbers behind `f/`, focal lengths in
`mm`, and colour filters by the names of their colours.
-/

namespace PhotoNaming

inductive TagFault
  | noValues (typeName : Text)
  | notIndexed (s : TagScalar)
  | notListed (s : TagScalar)
  | noItem
  | noCharacter
  | notReal (given : Text)
  | notConvertible (s : TagScalar)
  | divisionByZero
  | listAsColour
  | unwritten (complaint : Text)

def TagFault.message : TagFault → Text
  | .noValues typeName => '\'' :: typeName ++ "' object has no attribute 'values'".toList
  | .notIndexed s => '\'' :: s.typeName ++ "' object is not subscriptable".toList
  | .notListed s => '\'' :: s.typeName ++ "' object is not iterable".toList
  | .noItem => "list index out of range"
  | .noCharacter => "string index out of range"
  | .notReal given => (ReadFault.notReal given).message
  | .notConvertible s =>
    "float() argument must be a string or a real number, not '".toList ++ s.typeName ++ ['\'']
  | .divisionByZero => "float division by zero"
  | .listAsColour => "unhashable type: 'list'"
  | .unwritten complaint => complaint

/-- An integer with no binary64 number near it ends the reporting of all tags. -/
inductive TagLimit
  | tooLarge
  deriving DecidableEq

def TagLimit.message : TagLimit → Text
  | .tooLarge => "int too large to convert to float"

/-- A report either fails alone or ends the reporting. -/
abbrev TagReport (α : Type) := Except (TagFault ⊕ TagLimit) α

def TagLimit.check : Option Binary64 → TagReport Binary64
  | some x => .ok x
  | none => .error (.inr .tooLarge)

namespace TagScalar

def toReal : TagScalar → TagReport Binary64
  | .number (.integer n) => TagLimit.check (Binary64.ofInt? n)
  | .number (.binary x) => .ok x
  | .text t =>
    match Binary64.ofText? t with
    | some x => .ok x
    | none => .error (.inl (.notReal t))
  | s => .error (.inl (.notConvertible s))

end TagScalar

namespace TagItem

def toReal : TagItem → TagReport Binary64
  | .scalar s => s.toReal
  | .ratio num den _ => do
    let n ← num.toReal
    let d ← den.toReal
    match Binary64.div? n d with
    | some quotient => .ok quotient
    | none => .error (.inl .divisionByZero)

end TagItem

namespace Tag

/-- The first item; that of a text is its first character. -/
def firstItem (tag : Tag) : TagReport TagItem :=
  match tag.values with
  | none => .error (.inl (.noValues tag.typeName))
  | some (.items (item :: _)) => .ok item
  | some (.items []) => .error (.inl .noItem)
  | some (.text (c :: _)) => .ok (.scalar (.text [c]))
  | some (.text []) => .error (.inl .noCharacter)
  | some (.number x) => .error (.inl (.notIndexed (.number x)))
  | some .nothing => .error (.inl (.notIndexed .nothing))

def allItems (tag : Tag) : TagReport (List TagItem) :=
  match tag.values with
  | none => .error (.inl (.noValues tag.typeName))
  | some (.items items) => .ok items
  | some (.text t) => .ok (t.map fun c => .scalar (.text [c]))
  | some (.number x) => .error (.inl (.notListed (.number x)))
  | some .nothing => .error (.inl (.notListed .nothing))

def colours : List Text := ["Red", "Green", "Blue", "Cyan", "Magenta", "Yellow", "White"]

def colour? (x : Number) : Option Text :=
  let n : Option Int := match x with
    | .integer n => some n
    | .binary x => x.toInt?
  match n with
  | some (.ofNat k) => colours[k]?
  | _ => none

def shown (step : Except Text Text) : TagReport Text := step.mapError fun complaint => .inl (.unwritten complaint)

def colourText : TagItem → TagReport Text
  | .scalar .list | .scalar (.listOf ..) => .error (.inl .listAsColour)
  | .scalar (.number x) => do return (colour? x).getD (← shown (TagScalar.written (.number x)))
  | .scalar s => shown s.written
  | .ratio _ _ text => shown text

/-- The colours of a filter. More than four items begin with the two lengths of the grid, in four
bytes. -/
def colourNames (tag : Tag) : TagReport Text := do
  let items ← tag.allItems
  let names ← (if 4 < items.length then items.drop 4 else items).mapM colourText
  return Text.joinWith [','] names

def plain (tag : Tag) : Text := Text.stripped tag.printed

/-- The report of a tag in the form of its property; `none` for tags without a form of their own. -/
def special? (name : Text) (tag : Tag) : Option (TagReport Text) :=
  if name = "ExposureTime".toList then some (.ok (tag.plain ++ " sec".toList))
  else if name = "FNumber".toList then
    some (do return "f/".toList ++ (← (← tag.firstItem).toReal).numberText)
  else if name = "FocalLength".toList then
    some (do return (← (← tag.firstItem).toReal).numberText ++ " mm".toList)
  else if name = "CFAPattern".toList then some tag.colourNames
  else none

/-- The report of a tag. One that cannot have the form of its property is reported as printed. -/
def report (name : Text) (tag : Tag) : Logged TagLimit Text :=
  match tag.special? name with
  | some (.ok text) => .pure text
  | some (.error (.inr limit)) => .fail limit
  | some (.error (.inl fault)) =>
    ⟨[⟨.debug, .tags, "Cannot describe ".toList ++ name ++ ": ".toList ++ fault.message⟩],
      .ok tag.plain⟩
  | none => .pure tag.plain

end Tag

namespace TagGroup

def added (groups : List TagGroup) (group name text : Text) : List TagGroup :=
  if groups.any (·.name = group) then
    groups.map fun g => if g.name = group then { g with tags := g.tags ++ [(name, text)] } else g
  else groups ++ [⟨group, [(name, text)]⟩]

/-- Reports tags and sorts them into groups that are begun already. A key is the group, a space and
the name of the tag; keys without a space hold no tag. -/
def ofTagsBehind (groups : List TagGroup) : List (Text × Tag) → Logged TagLimit (List TagGroup)
  | [] => .pure groups
  | (key, tag) :: rest =>
    match Text.cutAt? ' ' key with
    | none => ofTagsBehind groups rest
    | some (group, name) =>
      (tag.report name).bind fun text => ofTagsBehind (added groups group name text) rest

/-- The same tags with each key once, where it came up first, and with its last tag. -/
def latestTags (tags : List (Text × Tag)) : List (Text × Tag) :=
  tags.foldl (fun done (key, tag) =>
    if done.any (·.1 = key) then done.map fun (k, t) => if k = key then (k, tag) else (k, t)
    else done ++ [(key, tag)]) []

def ofTags (tags : List (Text × Tag)) : Logged TagLimit (List TagGroup) := ofTagsBehind [] tags

end TagGroup

end PhotoNaming
