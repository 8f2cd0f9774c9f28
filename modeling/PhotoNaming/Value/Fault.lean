import PhotoNaming.Value.Basic
import PhotoNaming.Text.Quoted

/-!
Why a reported text cannot be read as a value.
-/

namespace PhotoNaming

/-- The causes, from the grammar of numbers to the limits of each kind. -/
inductive ReadFault
  | notInteger (given : Text)
  | tooManyDigits (count : Nat)
  | notReal (given : Text)
  | missingPart
  | tooFewParts (count : Nat)
  | calendar (fault : CalendarFault)
  | emptyDuration
  | divisionByZero
  | duration (fault : DurationFault)
  | outOfRange (n : Int) (kind : Kind)
  deriving DecidableEq

def ReadFault.message : ReadFault → Text
  | .notInteger given =>
    "invalid literal for int() with base 10: ".toList ++ Text.quoted given
  | .tooManyDigits count =>
    "Exceeds the limit (4300 digits) for integer string conversion: value has ".toList ++
      Text.ofNat count ++
      " digits; use sys.set_int_max_str_digits() to increase the limit".toList
  | .notReal given => "could not convert string to float: ".toList ++ Text.quoted given
  | .missingPart => "list index out of range"
  | .tooFewParts count =>
    "not enough values to unpack (expected 3, got ".toList ++ Text.ofNat count ++ [')']
  | .calendar fault => fault.message
  | .emptyDuration => "empty duration"
  | .divisionByZero => "float division by zero"
  | .duration fault => fault.message
  | .outOfRange n kind => Text.ofInt n ++ " out of range for ".toList ++ kind.name

end PhotoNaming
