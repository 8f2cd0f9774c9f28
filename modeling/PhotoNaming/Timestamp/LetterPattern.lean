import PhotoNaming.Timestamp.Basic

/-!
Date patterns made of letters: a run of one letter stands for a part of the date, quoted and
escaped text for itself.
-/

namespace PhotoNaming

namespace LetterPattern

/-- The pieces of a pattern: a run of one letter, or text that is copied. -/
inductive Token
  | run (letter : Char) (width : Nat)
  | copied (text : Text)
  deriving DecidableEq

def isLetter (c : Char) : Bool := "yMdhHmsfFt".toList.contains c

def isQuote (c : Char) : Bool := c = '\'' || c = '"'

/-- How far the reading of a pattern is: between pieces, within a run, within quotes, or behind a
backslash. -/
inductive Scan
  | between
  | run (letter : Char) (width : Nat)
  | quotation (quote : Char) (content : Text)
  | escape
  deriving DecidableEq

namespace Scan

def begin (c : Char) : List Token × Scan :=
  if isLetter c then ([], run c 1)
  else if isQuote c then ([], quotation c [])
  else if c = '\\' then ([], escape)
  else ([.copied [c]], between)

/-- One character of a pattern: the pieces it completes, and how far the reading is then. -/
def step : Scan → Char → List Token × Scan
  | between, c => begin c
  | run letter width, c =>
    if c = letter then ([], run letter (width + 1))
    else (.run letter width :: (begin c).1, (begin c).2)
  | quotation quote content, c =>
    if c = quote then ([.copied content], between) else ([], quotation quote (content ++ [c]))
  | escape, c => ([.copied [c]], between)

/-- What the end of the pattern completes: it closes a quotation, and a backslash before it stands
for itself. -/
def finish : Scan → List Token
  | between => []
  | run letter width => [.run letter width]
  | quotation _ content => [.copied content]
  | escape => [.copied ['\\']]

def tokens (scan : Scan) : Text → List Token
  | [] => finish scan
  | c :: rest => (step scan c).1 ++ tokens (step scan c).2 rest

end Scan

def tokens (pattern : Text) : List Token := Scan.between.tokens pattern

/-- Six digits of a second and a seventh that is always zero, cut to the width of the run. -/
private def fraction (t : Timestamp) (width : Nat) : Text :=
  (Text.zeroPadded 6 t.microsecond ++ ['0']).take (min width 7)

def runText (letter : Char) (width : Nat) (t : Timestamp) : Text :=
  match letter with
  | 'y' =>
    if width = 1 then Text.ofNat (t.year % 100)
    else if width = 2 then Text.zeroPadded 2 (t.year % 100)
    else Text.zeroPadded width t.year
  | 'M' =>
    if 4 ≤ width then t.monthName
    else if width = 3 then Timestamp.shortName t.monthName
    else Text.zeroPadded width t.month
  | 'd' =>
    if 4 ≤ width then t.dayName
    else if width = 3 then Timestamp.shortName t.dayName
    else Text.zeroPadded width t.day
  | 'h' => Text.zeroPadded (min width 2) t.clockHour
  | 'H' => Text.zeroPadded (min width 2) t.hour
  | 'm' => Text.zeroPadded (min width 2) t.minute
  | 's' => Text.zeroPadded (min width 2) t.second
  | 'f' => fraction t width
  | 'F' => ((fraction t width).reverse.dropWhile (· = '0')).reverse
  | _ => (if t.isMorning then "AM".toList else "PM".toList).take width

def Token.text (t : Timestamp) : Token → Text
  | .run letter width => runText letter width t
  | .copied text => text

def render (t : Timestamp) (pattern : Text) : Text := (tokens pattern).flatMap (Token.text t)

def standard? : Text → Option Text
  | ['d'] => some "MM/dd/yyyy".toList
  | ['D'] => some "dddd, dd MMMM yyyy".toList
  | ['t'] => some "HH:mm".toList
  | ['T'] => some "HH:mm:ss".toList
  | ['g'] => some "MM/dd/yyyy HH:mm".toList
  | ['G'] => some "MM/dd/yyyy HH:mm:ss".toList
  | ['s'] => some "yyyy-MM-dd'T'HH:mm:ss".toList
  | ['u'] => some "yyyy-MM-dd HH:mm:ss'Z'".toList
  | _ => none

end LetterPattern

end PhotoNaming
