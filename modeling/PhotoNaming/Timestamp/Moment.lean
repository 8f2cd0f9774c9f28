import PhotoNaming.Timestamp.Basic

/-!
Points in time by a clock that shows a fixed offset from universal time.
-/

namespace PhotoNaming

/-- The number of microseconds since the year before year 1 began its last day. -/
def Timestamp.microseconds (t : Timestamp) : Nat :=
  (((t.dayNumber * 24 + t.hour) * 60 + t.minute) * 60 + t.second) * 1000000 + t.microsecond

/-- What a clock shows, and by how many microseconds, less than a day, it is ahead of universal time. -/
structure Moment where
  clock : Timestamp
  offset : Int
  offset_lt : offset.natAbs < 86400000000
  deriving DecidableEq

namespace Moment

def instant (m : Moment) : Int := m.clock.microseconds - m.offset

/-- The offset in hours and minutes; seconds and microseconds only where there are any. -/
def offsetText (m : Moment) : Text :=
  let size := m.offset.natAbs
  let seconds := size / 1000000
  (if m.offset < 0 then '-' else '+') :: Text.zeroPadded 2 (seconds / 3600) ++
    ':' :: Text.zeroPadded 2 (seconds / 60 % 60) ++
    (if size % 60000000 = 0 then [] else ':' :: Text.zeroPadded 2 (seconds % 60)) ++
    (if size % 1000000 = 0 then [] else '.' :: Text.zeroPadded 6 (size % 1000000))

def text (m : Moment) : Text := m.clock.text ++ m.offsetText

end Moment

end PhotoNaming
