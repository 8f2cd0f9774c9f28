import PhotoNaming.Timestamp.Basic

/-!
Date patterns made of `%` directives, with the flags, widths and English names of the POSIX locale.
-/

namespace PhotoNaming

namespace PercentPattern

/-- What a directive shows: nothing at all, a number with its least count of digits, or a text. A
text may have a form of its own under the flag `#`, and has another under `^`. -/
inductive Field
  | nothing
  | number (digits : Nat) (spaces : Bool) (value : Int)
  | words (plain : Text) (swapped : Option Text) (raised : Text)

private def raise (t : Text) : Text := t.map Char.toUpper

private def name (t : Text) : Field := .words t (some (raise t)) (raise t)

private def verbatim (t : Text) : Field := .words t none t

private def composed (t : Text) : Field := .words t none (raise t)

private def timeText (t : Timestamp) : Text :=
  Text.zeroPadded 2 t.hour ++ ':' :: Text.zeroPadded 2 t.minute ++
    ':' :: Text.zeroPadded 2 t.second

private def clockText (t : Timestamp) : Text :=
  Text.zeroPadded 2 t.clockHour ++ ':' :: Text.zeroPadded 2 t.minute ++
    ':' :: Text.zeroPadded 2 t.second ++ ' ' :: (if t.isMorning then "AM" else "PM")

private def slashDate (t : Timestamp) : Text :=
  Text.zeroPadded 2 t.month ++ '/' :: Text.zeroPadded 2 t.day ++
    '/' :: Text.zeroPadded 2 (t.year % 100)

private def longDate (t : Timestamp) : Text :=
  Timestamp.shortName t.dayName ++ ' ' :: Timestamp.shortName t.monthName ++
    ' ' :: (Text.ofNat t.day).leftpad 2 ' ' ++ ' ' :: timeText t ++ ' ' :: Text.ofNat t.year

def epochSeconds (t : Timestamp) : Int :=
  ((t.dayNumber : Int) - 719163) * 86400 + (t.hour * 3600 + t.minute * 60 + t.second : Nat)

/-- The number of weeks of a year that began by day `dayOfYear`, when weeks begin on a day that was
`daysAgo` days ago; the days before the first such day are week 0. -/
private def weekNumber (dayOfYear daysAgo : Nat) : Nat := (dayOfYear - 1 + 7 - daysAgo) / 7

private def daysInYear (year : Nat) : Nat := if Calendar.isLeapYear year then 366 else 365

/-- The year and the week of the week calendar: weeks begin on Monday and belong to the year of
their Thursday. -/
def weekDate (t : Timestamp) : Nat × Nat :=
  let thursday : Int := t.dayOfYear - t.weekday + 3
  if thursday < 1 then (t.year - 1, ((thursday + daysInYear (t.year - 1)).toNat - 1) / 7 + 1)
  else if (daysInYear t.year : Int) < thursday then
    (t.year + 1, ((thursday - daysInYear t.year).toNat - 1) / 7 + 1)
  else (t.year, (thursday.toNat - 1) / 7 + 1)

def field? (t : Timestamp) : Char → Option Field
  | '%' => some (verbatim ['%'])
  | 'n' => some (verbatim ['\n'])
  | 't' => some (verbatim ['\t'])
  | 'a' => some (name (Timestamp.shortName t.dayName))
  | 'A' => some (name t.dayName)
  | 'b' => some (name (Timestamp.shortName t.monthName))
  | 'h' => some (name (Timestamp.shortName t.monthName))
  | 'B' => some (name t.monthName)
  | 'p' => some (if t.isMorning then .words "AM" (some "am") "AM" else .words "PM" (some "pm") "PM")
  | 'P' => some (verbatim (if t.isMorning then "am" else "pm"))
  | 'c' => some (composed (longDate t))
  | 'D' => some (composed (slashDate t))
  | 'x' => some (composed (slashDate t))
  | 'F' =>
    some (composed (Text.ofNat t.year ++ '-' :: Text.zeroPadded 2 t.month ++
      '-' :: Text.zeroPadded 2 t.day))
  | 'R' => some (composed (Text.zeroPadded 2 t.hour ++ ':' :: Text.zeroPadded 2 t.minute))
  | 'r' => some (composed (clockText t))
  | 'T' => some (composed (timeText t))
  | 'X' => some (composed (timeText t))
  | 'Z' => some (verbatim [])
  | 'z' => some .nothing
  | 'C' => some (.number 1 false (t.year / 100 : Nat))
  | 'd' => some (.number 2 false t.day)
  | 'e' => some (.number 2 true t.day)
  | 'H' => some (.number 2 false t.hour)
  | 'k' => some (.number 2 true t.hour)
  | 'I' => some (.number 2 false t.clockHour)
  | 'l' => some (.number 2 true t.clockHour)
  | 'j' => some (.number 3 false t.dayOfYear)
  | 'M' => some (.number 2 false t.minute)
  | 'm' => some (.number 2 false t.month)
  | 'S' => some (.number 2 false t.second)
  | 's' => some (verbatim (Text.ofInt (epochSeconds t)))
  | 'u' => some (.number 1 false (t.weekday + 1 : Nat))
  | 'w' => some (.number 1 false ((t.weekday + 1) % 7 : Nat))
  | 'U' => some (.number 2 false (weekNumber t.dayOfYear ((t.weekday + 1) % 7)))
  | 'W' => some (.number 2 false (weekNumber t.dayOfYear t.weekday))
  | 'V' => some (.number 2 false (weekDate t).2)
  | 'g' => some (.number 2 false ((weekDate t).1 % 100 : Nat))
  | 'G' => some (.number 1 false (weekDate t).1)
  | 'Y' => some (.number 1 false t.year)
  | 'y' => some (.number 2 false (t.year % 100 : Nat))
  | _ => none

private def takesModifier (modifier letter : Char) : Bool :=
  if modifier = 'E' then !"aAbhBdeHIjklmMSUVgGWwDF%".toList.contains letter
  else !"aAcxXDFY%".toList.contains letter

/-- The characters between `%` and the letter: flags, of which the last one for padding counts, a
least width and a modifier. -/
structure Options where
  padding : Option Char
  raised : Bool
  swapped : Bool
  width : Nat

private def isFlag (c : Char) : Bool := "_-0^#".toList.contains c

private def options (flags digits : Text) : Options where
  padding := (flags.filter (fun c => c ≠ '^' && c ≠ '#')).getLast?
  raised := flags.contains '^'
  swapped := flags.contains '#'
  width := Nat.ofDigitChars 10 digits 0

private def padded (o : Options) (limit : Nat) (t : Text) : Text :=
  t.leftpad (min o.width limit) (if o.padding = some '0' then '0' else ' ')

private def fieldText (o : Options) (limit : Nat) : Field → Text
  | .nothing => []
  | .number digits spaces value =>
    let padding := if spaces && o.padding ≠ some '0' && o.padding ≠ some '-' then some '_'
      else o.padding
    let count := min (max digits o.width) limit
    match padding with
    | some '-' => padded o limit (Text.ofInt value)
    | some '_' => (Text.ofInt value).leftpad count ' '
    | _ => (Text.ofInt value).leftpad count '0'
  | .words plain swapped raised =>
    padded o limit ((if o.swapped then swapped else none).getD (if o.raised then raised else plain))

/-- A directive that is cut off or has an unknown letter is shown as it stands. -/
private def unknownText (o : Options) (limit : Nat) (written : Text) : Text :=
  padded o limit (if o.raised then raise written else written)

private def directiveText (t : Timestamp) (limit : Nat) (o : Options) (written : Text)
    (modifier : Option Char) (letter : Char) : Text :=
  let field := if modifier.all (takesModifier · letter) then field? t letter else none
  match field with
  | some field => fieldText o limit field
  | none => unknownText o limit (if letter = '%' then ['%'] else written)

private def directive (t : Timestamp) (limit : Nat) (spec : Text) : Text × Text :=
  let flags := spec.takeWhile isFlag
  let digits := (spec.dropWhile isFlag).takeWhile (·.isDigit)
  let rest := (spec.dropWhile isFlag).dropWhile (·.isDigit)
  let o := options flags digits
  let before := '%' :: flags ++ digits
  match rest with
  | [] => (unknownText o limit before, [])
  | c :: more =>
    if c = 'E' || c = 'O' then
      match more with
      | [] => (unknownText o limit (before ++ [c]), [])
      | d :: after => (directiveText t limit o (before ++ [c, d]) (some c) d, after)
    else (directiveText t limit o (before ++ [c]) none c, more)

private theorem length_directive_le (t : Timestamp) (limit : Nat) (spec : Text) :
    (directive t limit spec).2.length ≤ spec.length := by
  have flags := Text.length_dropWhile_le isFlag spec
  have digits := Text.length_dropWhile_le (·.isDigit) (spec.dropWhile isFlag)
  dsimp only [directive]
  split
  · simp
  · rename_i c more h
    rw [h] at digits
    simp only [List.length_cons] at digits
    split
    · split
      · simp
      · simp only [List.length_cons] at digits ⊢
        omega
    · dsimp only
      omega

/-- The directives of one letter for the microseconds and for the zone, which a timestamp does not
have, are filled in before all others. -/
private def withMicroseconds (t : Timestamp) : Text → Text
  | '%' :: 'f' :: rest => Text.zeroPadded 6 t.microsecond ++ withMicroseconds t rest
  | '%' :: 'z' :: rest => withMicroseconds t rest
  | '%' :: 'Z' :: rest => withMicroseconds t rest
  | '%' :: c :: rest => '%' :: c :: withMicroseconds t rest
  | c :: rest => c :: withMicroseconds t rest
  | [] => []

private def filled (t : Timestamp) (limit : Nat) : Text → Text
  | [] => []
  | '%' :: rest => (directive t limit rest).1 ++ filled t limit (directive t limit rest).2
  | c :: rest => c :: filled t limit rest
termination_by pattern => pattern.length
decreasing_by
  · have := length_directive_le t limit rest
    simp only [List.length_cons]
    omega
  · simp

/-- The room for a filled pattern: the first power of two from 1024 on that is at least 256 times
the length of the pattern. -/
def room (pattern : Text) : Nat :=
  max 1024 (Nat.pow 2 (256 * pattern.length - 1).log2 * 2)

/-- The pattern, which ends at its first null character, with its directives filled in; nothing if
that takes all the room. -/
def render (t : Timestamp) (pattern : Text) : Text :=
  let pattern := withMicroseconds t (pattern.takeWhile (· ≠ '\x00'))
  let text := filled t (room pattern) pattern
  if text.length < room pattern then text else []

variable {t : Timestamp} {limit : Nat} {c : Char}

private theorem filled_nil : filled t limit [] = [] := by
  rw [filled]

private theorem filled_copied (hc : c ≠ '%') (rest : Text) :
    filled t limit (c :: rest) = c :: filled t limit rest := by
  rw [filled]
  exact hc

private theorem filled_number {digits n : Nat} (hc : field? t c = some (.number digits false n))
    (hf : isFlag c = false) (hd : c.isDigit = false) (hm : c ≠ 'E' ∧ c ≠ 'O') (rest : Text) :
    filled t limit ('%' :: c :: rest) =
      Text.zeroPadded (min digits limit) n ++ filled t limit rest := by
  rw [filled]
  simp [directive, hf, hd, hm, directiveText, hc, fieldText, options, Text.zeroPadded, Text.ofInt]

private theorem zeroPadded_one (n : Nat) : Text.zeroPadded 1 n = Text.ofNat n := by
  have hl : 0 < (Text.ofNat n).length := Nat.length_toDigits_pos
  have he : 1 - (Text.ofNat n).length = 0 := by omega
  rw [Text.zeroPadded, List.leftpad, he, List.replicate_zero, List.nil_append]

private theorem length_zeroPadded_two {n : Nat} (h : n < 100) : (Text.zeroPadded 2 n).length = 2 := by
  have hl : (Text.ofNat n).length ≤ 2 := (Nat.length_toDigits_le_iff (by decide) (by decide)).mpr h
  rw [Text.zeroPadded, List.length_leftpad]
  omega

theorem render_dateTime (t : Timestamp) :
    render t "%Y:%m:%d %H:%M:%S".toList =
      Text.ofNat t.year ++ ':' :: Text.zeroPadded 2 t.month ++ ':' :: Text.zeroPadded 2 t.day ++
        ' ' :: Text.zeroPadded 2 t.hour ++ ':' :: Text.zeroPadded 2 t.minute ++
        ':' :: Text.zeroPadded 2 t.second := by
  let pattern := ['%', 'Y', ':', '%', 'm', ':', '%', 'd', ' ', '%', 'H', ':', '%', 'M', ':', '%', 'S']
  let text := Text.ofNat t.year ++ ':' :: Text.zeroPadded 2 t.month ++
    ':' :: Text.zeroPadded 2 t.day ++ ' ' :: Text.zeroPadded 2 t.hour ++
    ':' :: Text.zeroPadded 2 t.minute ++ ':' :: Text.zeroPadded 2 t.second
  have hp : withMicroseconds t ("%Y:%m:%d %H:%M:%S".toList.takeWhile (· ≠ '\x00')) = pattern := rfl
  have hr : room pattern = 8192 := by decide
  have hf : filled t 8192 pattern = text := by
    rw [filled_number (n := t.year) rfl rfl rfl (by decide), filled_copied (by decide),
      filled_number (n := t.month) rfl rfl rfl (by decide), filled_copied (by decide),
      filled_number (n := t.day) rfl rfl rfl (by decide), filled_copied (by decide),
      filled_number (n := t.hour) rfl rfl rfl (by decide), filled_copied (by decide),
      filled_number (n := t.minute) rfl rfl rfl (by decide), filled_copied (by decide),
      filled_number (n := t.second) rfl rfl rfl (by decide), filled_nil]
    rw [Nat.min_eq_left (by decide : 1 ≤ 8192), Nat.min_eq_left (by decide : 2 ≤ 8192), zeroPadded_one]
    simp [text]
  have hl : text.length < 8192 := by
    obtain ⟨_, hy, _, hm, _, hd⟩ := t.isDate
    obtain ⟨hh, hn, hs⟩ := t.isTime
    have hy : (Text.ofNat t.year).length ≤ 4 :=
      (Nat.length_toDigits_le_iff (by decide) (by decide)).mpr (by omega)
    have hd' := Calendar.daysInMonth_le t.year t.month
    simp only [text, List.length_append, List.length_cons,
      length_zeroPadded_two (show t.month < 100 by omega),
      length_zeroPadded_two (show t.day < 100 by omega),
      length_zeroPadded_two (show t.hour < 100 by omega),
      length_zeroPadded_two (show t.minute < 100 by omega),
      length_zeroPadded_two (show t.second < 100 by omega)]
    omega
  rw [render, hp, hr, hf, if_pos hl]

end PercentPattern

end PhotoNaming
