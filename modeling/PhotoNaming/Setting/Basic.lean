import PhotoNaming.Value.Basic
import PhotoNaming.Text.Quoted

/-!
Settings as a settings file holds them, before anything is known of what they are for.
-/

namespace PhotoNaming

inductive Plain
  | nothing
  | flag (b : Bool)
  | number (x : Number)
  | text (t : Text)
  deriving DecidableEq, Inhabited

/-- A setting: plain, a list, or a mapping in the order in which it is written. -/
inductive Setting
  | plain (p : Plain)
  | list (items : List Setting)
  | mapping (entries : List (Plain × Setting))
  deriving Inhabited

namespace Plain

def typeName : Plain → Text
  | nothing => "NoneType"
  | flag _ => "bool"
  | number (.integer _) => "int"
  | number (.binary _) => "float"
  | text _ => "str"

/-- Nothing, zero and the empty text are off. -/
def isOn : Plain → Bool
  | nothing => false
  | flag b => b
  | number (.integer n) => n ≠ 0
  | number (.binary (.finite _ units)) => units ≠ 0
  | number (.binary _) => true
  | text t => t ≠ []

def fullText : Plain → Text
  | nothing => "None"
  | flag b => if b then "True" else "False"
  | number x => x.text
  | text t => t

/-- The form within a list or a mapping: texts stand between quotes. -/
def innerText : Plain → Text
  | text t => Text.quoted t
  | p => p.fullText

def number? : Plain → Option Number
  | flag b => some (.integer (if b then 1 else 0))
  | number x => some x
  | _ => none

def isSameKey (a b : Plain) : Bool :=
  match a.number?, b.number? with
  | some x, some y => x.Same y
  | _, _ => a = b

end Plain

namespace Setting

def nothing : Setting := plain .nothing

def flag (b : Bool) : Setting := plain (.flag b)

def text (t : Text) : Setting := plain (.text t)

def typeName : Setting → Text
  | plain p => p.typeName
  | list _ => "list"
  | mapping _ => "dict"

def isOn : Setting → Bool
  | plain p => p.isOn
  | list items => !items.isEmpty
  | mapping entries => !entries.isEmpty

mutual

def innerText : Setting → Text
  | plain p => p.innerText
  | list items => '[' :: Text.joinWith ", " (innerTexts items) ++ [']']
  | mapping entries => '\x7b' :: Text.joinWith ", " (entryTexts entries) ++ ['\x7d']

def innerTexts : List Setting → List Text
  | [] => []
  | item :: rest => innerText item :: innerTexts rest

def entryTexts : List (Plain × Setting) → List Text
  | [] => []
  | (key, value) :: rest => (key.innerText ++ ": ".toList ++ innerText value) :: entryTexts rest

end

/-- The form in which options are shown. -/
def fullText : Setting → Text
  | plain p => p.fullText
  | s => s.innerText

/-- Puts a value in place of the one with the same key, or at the end. -/
def putEntry (entries : List (Plain × Setting)) (key : Plain) (value : Setting) :
    List (Plain × Setting) :=
  if entries.any (·.1.isSameKey key) then
    entries.map fun (other, old) => (other, if other.isSameKey key then value else old)
  else entries ++ [(key, value)]

end Setting

end PhotoNaming
