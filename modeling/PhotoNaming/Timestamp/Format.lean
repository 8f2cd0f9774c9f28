import PhotoNaming.Timestamp.LetterPattern
import PhotoNaming.Timestamp.PercentPattern

/-!
Writing timestamps by a date pattern.
-/

namespace PhotoNaming.Timestamp

/-- Fills in a date pattern: one with a `%` is made of directives, a single letter may name a
standard pattern, and all others are made of letters. -/
def format (t : Timestamp) (pattern : Text) : Text :=
  if pattern.contains '%' then PercentPattern.render t pattern
  else LetterPattern.render t ((LetterPattern.standard? pattern).getD pattern)

def formatDefault (t : Timestamp) : Text := t.format "MM/dd/yyyy HH:mm"

end PhotoNaming.Timestamp
