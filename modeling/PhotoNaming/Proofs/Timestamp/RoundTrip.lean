import PhotoNaming.Proofs.Text.Numeral
import PhotoNaming.Proofs.Timestamp.Composition

/-! Points in time that are written by a date pattern and read again as reported texts. -/
namespace PhotoNaming.Timestamp

open LetterPattern (Token)

variable {t : Timestamp} {separator : Char}

/-- The pieces of a full date and time. Only the separator of the date is not fixed. -/
private def fullDate (separator : Char) : List Token :=
  [.run 'y' 4, .copied [separator], .run 'M' 2, .copied [separator], .run 'd' 2, .copied [' '],
    .run 'H' 2, .copied [':'], .run 'm' 2, .copied [':'], .run 's' 2]

private theorem flatMap_fullDate :
    (fullDate separator).flatMap (Token.text t) =
      Text.zeroPadded 4 t.year ++ separator :: Text.zeroPadded 2 t.month ++
        separator :: Text.zeroPadded 2 t.day ++ ' ' :: Text.zeroPadded 2 t.hour ++
        ':' :: Text.zeroPadded 2 t.minute ++ ':' :: Text.zeroPadded 2 t.second := by
  simp [fullDate, Token.text, LetterPattern.runText]

/-- A pattern with these pieces writes all there is to read, for the year has no more than four digits. -/
theorem timestamp_format_fullDate {pattern : Text} (hsep : separator = ':' ∨ separator = '-')
    (hp : '%' ∉ pattern) (hs : LetterPattern.standard? pattern = none)
    (ht : LetterPattern.tokens pattern = fullDate separator) :
    Reading.timestamp (t.format pattern) = .ok t.wholeSecond := by
  have hy := t.isDate.2.1
  rw [format_eq_render hp hs, LetterPattern.render, ht, flatMap_fullDate]
  exact Reading.timestamp_of_fields hsep t (Text.spells_zeroPadded (by decide) (by omega))

/-- The two usual forms of a date and the one that file facts are reported in read back to the second, also
where the year has leading zeros or is written without them. -/
theorem written_dates_read_back (t : Timestamp) :
    Reading.timestamp (t.format "yyyy:MM:dd HH:mm:ss") = .ok t.wholeSecond ∧
      Reading.timestamp (t.format "yyyy-MM-dd HH:mm:ss") = .ok t.wholeSecond ∧
      Reading.timestamp (t.format "%Y:%m:%d %H:%M:%S") = .ok t.wholeSecond := by
  refine ⟨?_, ?_, Reading.timestamp_format t⟩
  · exact timestamp_format_fullDate (.inl rfl) (by decide) rfl (by decide)
  · exact timestamp_format_fullDate (.inr rfl) (by decide) rfl (by decide)

end PhotoNaming.Timestamp
