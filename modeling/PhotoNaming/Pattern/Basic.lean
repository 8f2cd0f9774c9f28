import PhotoNaming.Text.Basic

/-!
Naming patterns: literal text mixed with property fields. A pattern is cut into segments from left
to right; `written` puts segments together again.
-/

namespace PhotoNaming

/-- A piece of a pattern: text that stands for itself, the field of a property, or the date with a
date pattern. -/
inductive Segment
  | literal (text : Text)
  | field (code : Text)
  | date (code pattern : Text)
  deriving DecidableEq

namespace Segment

def written : Segment → Text
  | literal t => t
  | field code => '$' :: code
  | date code pattern => '$' :: code ++ '[' :: pattern ++ [']']

def code? : Segment → Option Text
  | literal _ => none
  | field code => some code
  | date code _ => some code

def literalOf (t : Text) : List Segment := if t = [] then [] else [literal t]

end Segment

/-- How far the reading of a pattern is: within a literal, behind a `$`, behind a whole date code,
or within the brackets of a date pattern. -/
inductive PatternScan
  | literal (text : Text)
  | code (read : Text)
  | dateCode (code : Text)
  | datePattern (code pattern : Text)
  deriving DecidableEq

namespace PatternScan

def start : PatternScan := literal []

def literalStep (t : Text) (c : Char) : List Segment × PatternScan :=
  if c = '$' then (Segment.literalOf t, code []) else ([], literal (t ++ [c]))

/-- One character of a pattern: the segments it completes, and how far the reading is then. A code
has two characters. -/
def step (date : Text) : PatternScan → Char → List Segment × PatternScan
  | literal t, c => literalStep t c
  | code [], c => ([], code [c])
  | code (a :: read), c =>
    if a :: read ++ [c] = date then ([], dateCode (a :: read ++ [c]))
    else ([.field (a :: read ++ [c])], start)
  | dateCode read, c =>
    if c = '[' then ([], datePattern read [])
    else (.field read :: (literalStep [] c).1, (literalStep [] c).2)
  | datePattern read pattern, c =>
    if c = ']' then ([.date read pattern], start) else ([], datePattern read (pattern ++ [c]))

/-- What the end of the pattern completes. A date pattern that is not closed is dropped. -/
def finish : PatternScan → List Segment
  | literal t => Segment.literalOf t
  | code read => [.field read]
  | dateCode read => [.field read]
  | datePattern _ _ => []

def segments (date : Text) (scan : PatternScan) : Text → List Segment
  | [] => finish scan
  | c :: rest => (step date scan c).1 ++ segments date (step date scan c).2 rest

end PatternScan

/-- The segments of a pattern: `$` and two characters are a field, and the date code may carry a
date pattern in brackets. -/
def Segment.ofPattern (date pattern : Text) : List Segment :=
  PatternScan.start.segments date pattern

end PhotoNaming
