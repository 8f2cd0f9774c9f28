import PhotoNaming.Value.Fault

/-!
Forming typed values from loose data of any type.
-/

namespace PhotoNaming

inductive Payload
  | text (t : Text)
  | integer (n : Int)
  | flag (b : Bool)
  | nothing
  | binary (x : Binary64)
  | timestamp (t : Timestamp)
  | moment (m : Moment)
  | duration (d : Duration)
  deriving DecidableEq

namespace Payload

def typeName : Payload → Text
  | text _ => "str"
  | integer _ => "int"
  | flag _ => "bool"
  | nothing => "NoneType"
  | binary _ => "float"
  | timestamp _ => "datetime"
  | moment _ => "datetime"
  | duration _ => "timedelta"

/-- The name of the type together with the library it is from. -/
def fullTypeName : Payload → Text
  | timestamp _ => "datetime.datetime"
  | moment _ => "datetime.datetime"
  | duration _ => "datetime.timedelta"
  | p => p.typeName

end Payload

inductive PayloadFault
  | unknownKind (name : Text)
  | unsuited (kind : Kind) (payload : Payload)
  | notOrdered (payload : Payload)
  | outOfRange (written : Text) (kind : Kind)
  | notReal (given : Text)
  | notConvertible (payload : Payload)
  | tooLarge

def PayloadFault.message : PayloadFault → Text
  | .unknownKind name => Text.quoted name ++ " is not a valid ValueKind".toList
  | .unsuited kind payload => kind.name ++ " value cannot hold ".toList ++ payload.typeName
  | .notOrdered payload =>
    "'<=' not supported between instances of 'int' and '".toList ++ payload.fullTypeName ++ ['\'']
  | .outOfRange written kind => written ++ " out of range for ".toList ++ kind.name
  | .notReal given => (ReadFault.notReal given).message
  | .notConvertible payload =>
    "float() argument must be a string or a real number, not '".toList ++ payload.fullTypeName ++
      ['\'']
  | .tooLarge => "int too large to convert to float"

def Kind.all : List Kind := [.text, .integer, .long, .real, .timestamp, .duration]

def Kind.ofName? (name : Text) : Option Kind := Kind.all.find? (·.name = name)

def Number.Within (bits : Nat) (x : Number) : Prop :=
  ¬ x.Before (.integer (-Word.bound bits)) ∧ ¬ (Number.integer (Word.bound bits - 1)).Before x ∧ x.Same x

instance (bits : Nat) (x : Number) : Decidable (x.Within bits) := by
  unfold Number.Within
  infer_instance

namespace Value

/-- The value of a kind that data are, without any conversion; the size of integers is not
looked at. -/
def ofPayload (kind : Kind) (payload : Payload) : Except PayloadFault Value :=
  match kind, payload with
  | .text, .text t => .ok (.text t)
  | .integer, .integer n => .ok (.integer n)
  | .long, .integer n => .ok (.long n)
  | .real, .integer n => .ok (.real (.integer n))
  | .real, .binary x => .ok (.real (.binary x))
  | .timestamp, .timestamp t => .ok (.timestamp t)
  | .timestamp, .moment m => .ok (.moment m)
  | .duration, .duration d => .ok (.duration d)
  | _, _ => .error (.unsuited kind payload)

/-- An error unless data lie from -2^`bits` up to 2^`bits`, the upper end left out; a different one for
data that have no size. -/
def inRange (kind : Kind) (bits : Nat) (payload : Payload) : Except PayloadFault Unit :=
  let check (x : Number) : Except PayloadFault Unit :=
    if x.Within bits then .ok () else .error (.outOfRange x.text kind)
  match payload with
  | .integer n => check (.integer n)
  | .binary x => check (.binary x)
  | .flag _ => .ok ()
  | _ => .error (.notOrdered payload)

/-- The value of a kind that data stand for: integers have to fit their kind, and reals are
converted. -/
def make (kind : Kind) (payload : Payload) : Except PayloadFault Value :=
  match kind, payload with
  | .integer, _ => inRange .integer 31 payload >>= fun _ => ofPayload .integer payload
  | .long, _ => inRange .long 63 payload >>= fun _ => ofPayload .long payload
  | .real, .text t =>
    match Binary64.ofText? t with
    | some x => .ok (.real (.binary x))
    | none => .error (.notReal t)
  | .real, .integer n =>
    match Binary64.ofInt? n with
    | some x => .ok (.real (.binary x))
    | none => .error .tooLarge
  | .real, .flag b => .ok (.real (.binary (Binary64.ofQuotient (if b then 1 else 0) 1)))
  | .real, .binary x => .ok (.real (.binary x))
  | .real, _ => .error (.notConvertible payload)
  | _, _ => ofPayload kind payload

end Value

end PhotoNaming
