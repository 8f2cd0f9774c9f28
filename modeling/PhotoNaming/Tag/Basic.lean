import PhotoNaming.Value.Reading

/-!
Tags as they are embedded in a photo, before they are reported as text. What belongs to the library that
decodes them is part of the tag: its printed form, the name of its type, and how its ratios are shown.
-/

namespace PhotoNaming

/-- A plain datum in the values of a tag. A list is empty or has a first item. -/
inductive TagScalar
  | number (x : Number)
  | text (t : Text)
  | nothing
  | list
  | listOf (first : TagScalar) (rest : List TagScalar)

namespace TagScalar

def typeName : TagScalar → Text
  | number (.integer _) => "int"
  | number (.binary _) => "float"
  | text _ => "str"
  | nothing => "NoneType"
  | list | listOf .. => "list"

mutual

/-- A datum as lists show it, or the complaint if it is an integer of too many digits. -/
def listed : TagScalar → Except Text Text
  | number (.integer n) =>
    if Reading.maxDigits < (Text.ofNat n.natAbs).length then
      .error ("Exceeds the limit (4300 digits) for integer string conversion; use ".toList ++
        "sys.set_int_max_str_digits() to increase the limit".toList)
    else .ok (Text.ofInt n)
  | number (.binary x) => .ok x.text
  | text t => .ok (Text.quoted t)
  | nothing => .ok "None"
  | list => .ok "[]"
  | listOf first rest => do
    return '[' :: Text.joinWith ", " ((← first.listed) :: (← listedAll rest)) ++ [']']

def listedAll : List TagScalar → Except Text (List Text)
  | [] => .ok []
  | s :: rest => do return (← s.listed) :: (← listedAll rest)

end

def written : TagScalar → Except Text Text
  | text t => .ok t
  | s => s.listed

def fraction (num den : TagScalar) : Except Text Text := do
  return (← num.written) ++ '/' :: (← den.written)

end TagScalar

/-- An item of a tag's values: plain, or a ratio of two plain ones with what colours show for it or the
complaint of showing it. -/
inductive TagItem
  | scalar (s : TagScalar)
  | ratio (num den : TagScalar) (shown : Except Text Text := num.fraction den)

inductive TagValues
  | items (items : List TagItem)
  | number (x : Number)
  | text (t : Text)
  | nothing

def TagValues.single : TagScalar → TagValues
  | .number x => number x
  | .text t => text t
  | .nothing => nothing
  | .list => .items []
  | .listOf first rest => .items ((first :: rest).map .scalar)

/-- A tag: its printed form, its values if it has any, and the name of its type. -/
structure Tag where
  printed : Text
  values : Option TagValues
  typeName : Text := "FakeTag"

end PhotoNaming
