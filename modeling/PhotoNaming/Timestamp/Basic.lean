import PhotoNaming.Text.Basic
import PhotoNaming.Word

/-!
Points in time of the proleptic Gregorian calendar, from year 1 to year 9999, to the microsecond.
-/

namespace PhotoNaming

namespace Calendar

def isLeapYear (year : Nat) : Bool := year % 4 = 0 && (year % 100 ≠ 0 || year % 400 = 0)

def daysInMonth (year month : Nat) : Nat :=
  match month with
  | 2 => if isLeapYear year then 29 else 28
  | 4 | 6 | 9 | 11 => 30
  | _ => 31

theorem daysInMonth_le (year month : Nat) : daysInMonth year month ≤ 31 := by
  unfold daysInMonth
  split
  · split <;> decide
  · decide
  · decide
  · decide
  · decide
  · decide

def daysBeforeYear (year : Nat) : Nat :=
  (year - 1) * 365 + (year - 1) / 4 - (year - 1) / 100 + (year - 1) / 400

def daysBeforeMonth (year : Nat) : Nat → Nat
  | 0 => 0
  | 1 => 0
  | month + 2 => daysBeforeMonth year (month + 1) + daysInMonth year (month + 1)

def IsDate (year month day : Nat) : Prop :=
  1 ≤ year ∧ year ≤ 9999 ∧ 1 ≤ month ∧ month ≤ 12 ∧ 1 ≤ day ∧ day ≤ daysInMonth year month

def IsTime (hour minute second : Nat) : Prop := hour < 24 ∧ minute < 60 ∧ second < 60

instance (year month day : Nat) : Decidable (IsDate year month day) := by
  unfold IsDate
  infer_instance

instance (hour minute second : Nat) : Decidable (IsTime hour minute second) := by
  unfold IsTime
  infer_instance

end Calendar

structure Timestamp where
  year : Nat
  month : Nat
  day : Nat
  hour : Nat
  minute : Nat
  second : Nat
  microsecond : Nat
  isDate : Calendar.IsDate year month day
  isTime : Calendar.IsTime hour minute second
  microsecond_lt : microsecond < 1000000
  deriving DecidableEq

/-- Why numbers do not make a timestamp. The last three concern numbers of any part that do not fit
into machine words of 32 or 64 bits. -/
inductive CalendarFault
  | year (given : Int)
  | month
  | day
  | hour
  | minute
  | second
  | microsecond
  | aboveWord
  | belowWord
  | beyondLongWord
  deriving DecidableEq

def CalendarFault.message : CalendarFault → Text
  | .year given => "year ".toList ++ Text.ofInt given ++ " is out of range".toList
  | .month => "month must be in 1..12"
  | .day => "day is out of range for month"
  | .hour => "hour must be in 0..23"
  | .minute => "minute must be in 0..59"
  | .second => "second must be in 0..59"
  | .microsecond => "microsecond must be in 0..999999"
  | .aboveWord => "signed integer is greater than maximum"
  | .belowWord => "signed integer is less than minimum"
  | .beyondLongWord => "Python int too large to convert to C long"

namespace Timestamp

/-- Each part has to fit into 32 bits, whether or not it makes sense. -/
private def checkWord (n : Int) : Except CalendarFault Unit :=
  if ¬ Word.Fits 63 n then .error .beyondLongWord
  else if ¬ Word.Fits 31 n then .error (if n < 0 then .belowWord else .aboveWord)
  else .ok ()

private def partFault (year month day hour minute second : Int) : CalendarFault :=
  if year < 1 ∨ 9999 < year then .year year
  else if month < 1 ∨ 12 < month then .month
  else if day < 1 ∨ Calendar.daysInMonth year.toNat month.toNat < day then .day
  else if hour < 0 ∨ 23 < hour then .hour
  else if minute < 0 ∨ 59 < minute then .minute
  else if second < 0 ∨ 59 < second then .second
  else .microsecond

def ofParts (year month day hour minute second microsecond : Int) :
    Except CalendarFault Timestamp := do
  [year, month, day, hour, minute, second, microsecond].forM checkWord
  if h : (0 ≤ year ∧ 0 ≤ month ∧ 0 ≤ day ∧ 0 ≤ hour ∧ 0 ≤ minute ∧ 0 ≤ second ∧ 0 ≤ microsecond) ∧
      Calendar.IsDate year.toNat month.toNat day.toNat ∧
      Calendar.IsTime hour.toNat minute.toNat second.toNat ∧ microsecond.toNat < 1000000 then
    .ok
      { year := year.toNat, month := month.toNat, day := day.toNat, hour := hour.toNat,
        minute := minute.toNat, second := second.toNat, microsecond := microsecond.toNat,
        isDate := h.2.1, isTime := h.2.2.1, microsecond_lt := h.2.2.2 }
  else .error (partFault year month day hour minute second)

private theorem checkWords_of_lt {parts : List Int} (h : ∀ n ∈ parts, 0 ≤ n ∧ n < 2147483648) :
    parts.forM checkWord = .ok () := by
  induction parts with
  | nil => rfl
  | cons n parts ih =>
    rw [List.forall_mem_cons] at h
    have hb (bits : Nat) (hle : 31 ≤ bits) : Word.Fits bits n := by
      have hp : 2147483648 ≤ Nat.pow 2 bits := Nat.pow_le_pow_right (n := 2) (by decide) hle
      have hc : Word.bound bits = (Nat.pow 2 bits : Nat) := rfl
      rw [Word.Fits, hc]
      omega
    have hn : checkWord n = .ok () := by
      rw [checkWord, if_neg (not_not_intro (hb 63 (by decide))),
        if_neg (not_not_intro (hb 31 (by decide)))]
    rw [List.forM_eq_forM] at ih ⊢
    rw [List.forM_cons, hn]
    exact ih h.2

theorem ofParts_self (t : Timestamp) :
    ofParts t.year t.month t.day t.hour t.minute t.second t.microsecond = .ok t := by
  obtain ⟨_, hy, _, hm, _, hd⟩ := t.isDate
  obtain ⟨hh, hn, hs⟩ := t.isTime
  have hd' := Calendar.daysInMonth_le t.year t.month
  have hf := t.microsecond_lt
  rw [ofParts, checkWords_of_lt (by simp; omega)]
  exact dif_pos ⟨by omega, t.isDate, t.isTime, hf⟩

/-- The parts from the largest to the smallest; their lexicographic order is the order in time. -/
def parts (t : Timestamp) : List Nat :=
  [t.year, t.month, t.day, t.hour, t.minute, t.second, t.microsecond]

def wholeSecond (t : Timestamp) : Timestamp :=
  { t with microsecond := 0, microsecond_lt := by decide }

def dayNumber (t : Timestamp) : Nat :=
  Calendar.daysBeforeYear t.year + Calendar.daysBeforeMonth t.year t.month + t.day

/-- The day of the week, Monday being 0. -/
def weekday (t : Timestamp) : Nat := (t.dayNumber + 6) % 7

def dayOfYear (t : Timestamp) : Nat := Calendar.daysBeforeMonth t.year t.month + t.day

def clockHour (t : Timestamp) : Nat := if t.hour % 12 = 0 then 12 else t.hour % 12

def isMorning (t : Timestamp) : Bool := t.hour < 12

/-- Date and time with all fields padded; microseconds only where there are any. -/
def text (t : Timestamp) : Text :=
  Text.zeroPadded 4 t.year ++ '-' :: Text.zeroPadded 2 t.month ++ '-' :: Text.zeroPadded 2 t.day ++
    ' ' :: Text.zeroPadded 2 t.hour ++ ':' :: Text.zeroPadded 2 t.minute ++
    ':' :: Text.zeroPadded 2 t.second ++
    (if t.microsecond = 0 then [] else '.' :: Text.zeroPadded 6 t.microsecond)

end Timestamp

namespace Calendar

def monthNames : List Text :=
  ["January", "February", "March", "April", "May", "June", "July", "August", "September",
    "October", "November", "December"]

def dayNames : List Text :=
  ["Monday", "Tuesday", "Wednesday", "Thursday", "Friday", "Saturday", "Sunday"]

end Calendar

namespace Timestamp

def monthName (t : Timestamp) : Text := Calendar.monthNames.getD (t.month - 1) []

def dayName (t : Timestamp) : Text := Calendar.dayNames.getD t.weekday []

def shortName (name : Text) : Text := name.take 3

end Timestamp

end PhotoNaming
