import PhotoNaming.Timestamp.Moment
import PhotoNaming.Duration.Basic

/-!
Typed values of photo properties. Values of one kind are ordered, but a timestamp with an offset from
universal time cannot be compared to one without; values of different kinds are not compared.
-/

namespace PhotoNaming

inductive Number
  | integer (n : Int)
  | binary (x : Binary64)
  deriving DecidableEq

/-- A property value with its kind. Of timestamps there are those of a clock alone, which are all that
photos report, and those with an offset. -/
inductive Value
  | text (t : Text)
  | integer (n : Int)
  | long (n : Int)
  | real (x : Number)
  | timestamp (t : Timestamp)
  | moment (m : Moment)
  | duration (d : Duration)
  deriving DecidableEq

inductive Scale
  | text
  | integer
  | long
  | real
  | clock
  | universal
  | duration
  deriving DecidableEq

inductive Kind
  | text
  | integer
  | long
  | real
  | timestamp
  | duration
  deriving DecidableEq

def Kind.name : Kind → Text
  | .text => "text"
  | .integer => "integer"
  | .long => "long"
  | .real => "real"
  | .timestamp => "timestamp"
  | .duration => "duration"

namespace Number

def text : Number → Text
  | integer n => Text.ofInt n
  | binary x => x.text

/-- Where a number stands on the extended line; the one that is no number stands nowhere. -/
def position? : Number → Option Binary64.Position
  | integer n => some (Binary64.Position.ofInt n)
  | binary x => x.position?

def Before (a b : Number) : Prop :=
  match a.position?, b.position? with
  | some p, some q => p.Before q
  | _, _ => False

instance (a b : Number) : Decidable (a.Before b) := by
  unfold Before
  split <;> infer_instance

def Same (a b : Number) : Prop :=
  match a.position?, b.position? with
  | some p, some q => p = q
  | _, _ => False

instance (a b : Number) : Decidable (a.Same b) := by
  unfold Same
  split <;> infer_instance

end Number

namespace Value

def kind : Value → Kind
  | text _ => .text
  | integer _ => .integer
  | long _ => .long
  | real _ => .real
  | timestamp _ => .timestamp
  | moment _ => .timestamp
  | duration _ => .duration

def scale : Value → Scale
  | text _ => .text
  | integer _ => .integer
  | long _ => .long
  | real _ => .real
  | timestamp _ => .clock
  | moment _ => .universal
  | duration _ => .duration

def fullText : Value → Text
  | text t => t
  | integer n => Text.ofInt n
  | long n => Text.ofInt n
  | real x => x.text
  | timestamp t => t.text
  | moment m => m.text
  | duration d => d.text

/-- Whether the first value comes before the second: texts by code points, numbers by size, points
and lengths of time by time. Values on different scales are in no order. -/
def Before : Value → Value → Prop
  | text a, text b => a < b
  | integer a, integer b => a < b
  | long a, long b => a < b
  | real a, real b => a.Before b
  | timestamp a, timestamp b => a.parts < b.parts
  | moment a, moment b => a.instant < b.instant
  | duration a, duration b => a.microseconds < b.microseconds
  | _, _ => False

instance (a b : Value) : Decidable (a.Before b) := by
  unfold Before
  split <;> infer_instance

/-- Whether two values are on one scale and equal; an integer and a binary64 number of the same size
are, and so is one time with two offsets. -/
def Same : Value → Value → Prop
  | real a, real b => a.Same b
  | moment a, moment b => a.instant = b.instant
  | a, b => a = b

instance (a b : Value) : Decidable (a.Same b) := by
  unfold Same
  split <;> infer_instance

/-- Whether the first value replaces the second one for the same property, if that can be said. -/
def Supersedes (a b : Value) : Prop := b.Before a

instance (a b : Value) : Decidable (a.Supersedes b) := by
  unfold Supersedes
  infer_instance

inductive Relation
  | less
  | lessOrSame
  | greater
  | greaterOrSame
  deriving DecidableEq

def Relation.sign : Relation → Text
  | .less => "<"
  | .lessOrSame => "<="
  | .greater => ">"
  | .greaterOrSame => ">="

/-- Two values were to be ordered that are of different kinds, or timestamps with and without an
offset. -/
inductive OrderFault
  | kinds (relation : Relation)
  | offsets
  deriving DecidableEq

def OrderFault.message : OrderFault → Text
  | .kinds r =>
    '\'' :: r.sign ++ "' not supported between instances of 'TypedValue' and 'TypedValue'".toList
  | .offsets => "can't compare offset-naive and offset-aware datetimes"

/-- Whether a relation holds, for values on one scale. All four come from `Before` and `Same`. -/
def compare (r : Relation) (a b : Value) : Except OrderFault Bool :=
  if a.kind ≠ b.kind then .error (.kinds r)
  else if a.scale ≠ b.scale then .error .offsets
  else
    .ok <| match r with
      | .less => decide (a.Before b)
      | .lessOrSame => decide (a.Before b ∨ a.Same b)
      | .greater => decide (¬ a.Before b ∧ ¬ a.Same b)
      | .greaterOrSame => decide (¬ a.Before b)

/-- Whether the first value replaces the second one for the same property. It never replaces one of
another kind. -/
def supersedes (a b : Value) : Except OrderFault Bool :=
  if a.kind = b.kind then compare .less b a else .ok false

/-- Sorts values on one scale, keeping the order of those that are the same. Where values of different
kinds stand beside timestamps of both sorts, which of the two is complained of is left open by the
order in which a sort compares; it is the kinds here. -/
def sort (values : List Value) : Except OrderFault (List Value) :=
  if values.all fun a => values.all fun b => a.scale = b.scale then
    .ok (values.mergeSort fun a b => decide (¬ b.Before a))
  else if values.all fun a => values.all fun b => a.kind = b.kind then .error .offsets
  else .error (.kinds .less)

end Value

end PhotoNaming
