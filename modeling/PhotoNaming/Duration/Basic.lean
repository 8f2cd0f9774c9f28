import PhotoNaming.Binary64.Shortest
import PhotoNaming.Word

/-!
Lengths of time in whole microseconds, at most 999999999 days, and how file names show them.
-/

namespace PhotoNaming

structure Duration where
  microseconds : Int
  lower : -86399999913600000000 ≤ microseconds
  upper : microseconds ≤ 86399999999999999999
  deriving DecidableEq

inductive DurationFault
  | days (count : Int)
  | daysBeyondWord
  | infinite
  | notANumber
  deriving DecidableEq

def DurationFault.message : DurationFault → Text
  | .days count => "days=".toList ++ Text.ofInt count ++ "; must have magnitude <= 999999999".toList
  | .daysBeyondWord => "Python int too large to convert to C int"
  | .infinite => "cannot convert float infinity to integer"
  | .notANumber => "cannot convert float NaN to integer"

namespace Duration

def second : Nat := 1000000

def minute : Nat := 60 * second

def hour : Nat := 60 * minute

def day : Nat := 24 * hour

def zero : Duration := ⟨0, by decide, by decide⟩

def ofMicroseconds (n : Int) : Except DurationFault Duration :=
  if h : -86399999913600000000 ≤ n ∧ n ≤ 86399999999999999999 then .ok ⟨n, h.1, h.2⟩
  else
    let days := n.fdiv (day : Nat)
    if Word.Fits 31 days then .error (.days days) else .error .daysBeyondWord

def add (a b : Duration) : Except DurationFault Duration :=
  ofMicroseconds (a.microseconds + b.microseconds)

/-- The whole number of microseconds nearest to `units` units of a number times `unit`
microseconds. The product of its fraction is rounded to binary64 first, and a half goes to the even
neighbour. -/
private def scaled (units unit : Nat) : Nat :=
  let whole := units / Binary64.one
  let product := Binary64.nearestUnits (unit * (units % Binary64.one)) 1
  Binary64.roundedQuotient (whole * unit * Binary64.one + product) Binary64.one

/-- `x` times the length of `unit` microseconds. -/
def ofReal (unit : Nat) : Binary64 → Except DurationFault Duration
  | .nan => .error .notANumber
  | .infinity _ => .error .infinite
  | .finite negative units =>
    ofMicroseconds (if negative then -(scaled units unit : Int) else scaled units unit)

/-- How often `unit` fits into the length, counted on the binary64 quotient. -/
def count (d : Duration) (unit : Nat) : Nat := (Binary64.ofQuotient d.microseconds unit).wholePart

def without (d : Duration) (n unit : Nat) : Except DurationFault Duration := do
  let taken ← ofMicroseconds (n * unit : Nat)
  ofMicroseconds (d.microseconds - taken.microseconds)

def countText (n : Nat) (letter : Char) : Text :=
  if n = 0 then [] else Text.ofNat n ++ [letter]

def seconds (d : Duration) : Binary64 := Binary64.ofQuotient d.microseconds second

/-- Hours and minutes where there are any, and always seconds: `1h2m3s`, `2m0s`, `0.005s`. -/
def fileText (d : Duration) : Except DurationFault Text := do
  let hours := d.count hour
  let belowHour ← d.without hours hour
  let minutes := belowHour.count minute
  let belowMinute ← belowHour.without minutes minute
  return countText hours 'h' ++ countText minutes 'm' ++ belowMinute.seconds.numberText ++ ['s']

/-- Days where there are any, then hours, minutes and seconds; only the days can be negative. -/
def text (d : Duration) : Text :=
  let days := d.microseconds.fdiv (day : Nat)
  let rest := (d.microseconds.fmod (day : Nat)).toNat
  let dayText := if days = 0 then []
    else Text.ofInt days ++ (if days.natAbs = 1 then " day, " else " days, ").toList
  dayText ++ Text.ofNat (rest / hour) ++ ':' :: Text.zeroPadded 2 (rest % hour / minute) ++
    ':' :: Text.zeroPadded 2 (rest % minute / second) ++
    (if rest % second = 0 then [] else '.' :: Text.zeroPadded 6 (rest % second))

end Duration

end PhotoNaming
