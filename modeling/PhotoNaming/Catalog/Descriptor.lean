import PhotoNaming.Value.Reading
import PhotoNaming.Timestamp.Format

/-!
Descriptors of photo properties: how a reported text is read, and how its value appears in a file
name.
-/

namespace PhotoNaming

/-- The formats of reported properties. An integer may be shown with a unit behind it. -/
inductive Format
  | text
  | colourFilter
  | firstInteger (unit : Text)
  | sensitivity
  | timestamp
  | exposure
  | fNumber
  | size
  deriving DecidableEq

namespace Format

def kind : Format → Kind
  | text => .text
  | colourFilter => .text
  | firstInteger _ => .integer
  | sensitivity => .integer
  | timestamp => .timestamp
  | exposure => .duration
  | fNumber => .real
  | size => .long

def checkedInteger (n : Int) : Except ReadFault Value :=
  if Word.Fits 31 n then .ok (.integer n) else .error (.outOfRange n .integer)

def checkedLong (n : Int) : Except ReadFault Value :=
  if Word.Fits 63 n then .ok (.long n) else .error (.outOfRange n .long)

def read (format : Format) (raw : Text) : Except ReadFault Value :=
  match format with
  | text => .ok (.text raw)
  | colourFilter => .ok (.text (Reading.colourFilter raw))
  | firstInteger _ => Reading.firstInteger raw >>= checkedInteger
  | sensitivity => Reading.integer raw >>= checkedInteger
  | timestamp => (Reading.timestamp raw).map .timestamp
  | exposure => (Reading.duration raw).map .duration
  | fNumber => (Reading.fNumber raw).map fun x => .real (.binary x)
  | size => Reading.firstInteger raw >>= checkedLong

/-- The form of a value in a file name. Only a length of time may have none. -/
def fileText (format : Format) (value : Value) : Except DurationFault Text :=
  match format, value with
  | firstInteger unit, v => .ok (v.fullText ++ unit)
  | sensitivity, v => .ok ("iso".toList ++ v.fullText)
  | timestamp, .timestamp t => .ok t.formatDefault
  | timestamp, .moment m => .ok m.clock.formatDefault
  | exposure, .duration d => d.fileText
  | fNumber, .real (.binary x) => .ok ('f' :: x.numberText)
  | _, v => .ok v.fullText

end Format

/-- A property that photos may have: its two-letter code, its display name, the format of its
reports and the other names under which it is reported. -/
structure Descriptor where
  code : Text
  name : Text
  format : Format
  aliases : List Text
  deriving DecidableEq

structure ParseFault where
  code : Text
  raw : Text
  cause : ReadFault
  deriving DecidableEq

def ParseFault.message (f : ParseFault) : Text :=
  "Cannot parse $".toList ++ f.code ++ " from ".toList ++ Text.quoted f.raw ++ ": ".toList ++
    f.cause.message

namespace Descriptor

def parse (d : Descriptor) (raw : Text) : Except ParseFault Value :=
  (d.format.read raw).mapError fun cause => ⟨d.code, raw, cause⟩

def text (d : Descriptor) : Text := '$' :: d.code ++ ": ".toList ++ d.name

end Descriptor

end PhotoNaming
