import PhotoNaming.Value.Fault
import PhotoNaming.Text.Lowercase

/-!
Reading integers, f-numbers, dates, exposure times and colour filters from reported texts.
-/

namespace PhotoNaming

namespace Reading

/-- The most digits that an integer may be written with. -/
def maxDigits : Nat := 4300

def isRun (run : Text) : Bool := run ≠ [] && (Text.withoutGroupMarks? run).isSome

def integer (t : Text) : Except ReadFault Int :=
  let (negative, magnitude) :=
    Binary64.signed (Text.trimmed Text.isWhite (Text.withPlainDigits t))
  let run := magnitude.takeWhile fun c => c.isDigit || c = '_'
  let digits := run.filter (·.isDigit)
  if !isRun run then .error (.notInteger t)
  else if maxDigits < digits.length then .error (.tooManyDigits digits.length)
  else if run ≠ magnitude then .error (.notInteger t)
  else .ok (if negative then -(Text.digitsValue digits : Int) else Text.digitsValue digits)

/-- The first word as an integer: `72 dots per inch` is 72. -/
def firstInteger (t : Text) : Except ReadFault Int :=
  match Text.words t with
  | [] => .error .missingPart
  | word :: _ => integer word

def real (t : Text) : Except ReadFault Binary64 :=
  match Binary64.ofText? t with
  | some x => .ok x
  | none => .error (.notReal t)

/-- The number behind the first slash, or the whole text: `f/2.8` and `2.8` are 2.8. -/
def fNumber (t : Text) : Except ReadFault Binary64 :=
  match Text.cutAt? '/' t with
  | some (_, behind) => real behind
  | none => real t

def threeIntegers (separator : Char) (t : Text) : Except ReadFault (Int × Int × Int) := do
  match ← ((t.splitOn separator).take 3).mapM integer with
  | [a, b, c] => return (a, b, c)
  | found => .error (.tooFewParts found.length)

/-- Reads `YYYY:MM:DD HH:MM:SS` or `YYYY-MM-DD HH:MM:SS`. -/
def timestamp (t : Text) : Except ReadFault Timestamp := do
  match t.splitOn ' ' with
  | date :: time :: _ =>
    let (year, month, day) ← threeIntegers (if date.contains ':' then ':' else '-') date
    let (hour, minute, second) ← threeIntegers ':' time
    (Timestamp.ofParts year month day hour minute second 0).mapError .calendar
  | _ => .error .missingPart

/-- A number or a fraction. A slash in front makes no fraction. -/
def magnitude (t : Text) : Except ReadFault Binary64 :=
  match Text.cutAt? '/' t with
  | some (c :: rest, denominator) => do
    let num ← real (c :: rest)
    let den ← real denominator
    match Binary64.div? num den with
    | some quotient => .ok quotient
    | none => .error .divisionByZero
  | _ => real t

def unitLength? (unit : Text) : Option Nat :=
  match Text.lowered unit with
  | 'h' :: _ => some Duration.hour
  | 'm' :: _ => some Duration.minute
  | 's' :: _ => some Duration.second
  | _ => none

/-- Adds up pairs of a magnitude and a unit. A pair with an unknown unit counts nothing. -/
def durationSum (total : Duration) : List Text → Except ReadFault Duration
  | [] => .ok total
  | [number] => do
    let _ ← magnitude number
    .error .missingPart
  | number :: unit :: rest => do
    let x ← magnitude number
    match unitLength? unit with
    | none => durationSum total rest
    | some length =>
      let part ← (Duration.ofReal length x).mapError .duration
      let sum ← (total.add part).mapError .duration
      durationSum sum rest

/-- Reads `1/200 sec` or `1 hour 2 min 3 sec`. -/
def duration (t : Text) : Except ReadFault Duration :=
  match Text.words t with
  | [] => .error .emptyDuration
  | words => durationSum .zero words

private def colourLetter? : Char → Option Char
  | 'r' => some 'R'
  | 'g' => some 'G'
  | 'b' => some 'B'
  | _ => none

def colourFilter (t : Text) : Text :=
  let lower := Text.lowered t
  let short := Text.replaced "blue" ['b']
    (Text.replaced "green" ['g'] (Text.replaced "red" ['r'] lower))
  short.filterMap colourLetter?

theorem colourFilter_eq (t : Text) :
    colourFilter t =
      (Text.replaced "blue" ['b'] (Text.replaced "green" ['g']
        (Text.replaced "red" ['r'] (Text.lowered t)))).filterMap
          fun c => if c ∈ ['r', 'g', 'b'] then some c.toUpper else none := by
  refine congrArg (List.filterMap · _) (funext fun c => ?_)
  unfold colourLetter?
  split <;> simp_all

end Reading

end PhotoNaming
