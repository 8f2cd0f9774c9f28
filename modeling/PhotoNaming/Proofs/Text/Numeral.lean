import PhotoNaming.Value.Reading
import PhotoNaming.Timestamp.Format
import PhotoNaming.Proofs.Text.Decoding
import Mathlib.Data.List.TakeWhile
import Mathlib.Tactic.IntervalCases

/-! Reading numerals: plain digits stand for themselves, and what is written as the digits of a number is
read as that number. A date and a time in numbers are read as that point in time. -/
namespace PhotoNaming

namespace Text

theorem exists_digitChar_of_isDigit {c : Char} (h : c.isDigit) : ∃ n < 10, c = Nat.digitChar n := by
  have hr : 48 ≤ c.toNat ∧ c.toNat ≤ 57 := Char.isDigit_iff_toNat.mp h
  refine ⟨c.toNat - 48, by omega, ?_⟩
  apply Char.toNat_inj.mp
  rw [Nat.toNat_digitChar_of_lt_ten (by omega)]
  omega

/-- No digit is a blank. -/
theorem isBlank_of_isDigit {c : Char} (h : c.isDigit) : isBlank c = false := by
  obtain ⟨n, hn, rfl⟩ := exists_digitChar_of_isDigit h
  interval_cases n <;> decide

theorem isWhite_of_isDigit {c : Char} (h : c.isDigit) : isWhite c = false := by
  have hb := isBlank_of_isDigit h
  rw [isBlank, Bool.or_eq_false_iff] at hb
  exact hb.1

theorem ne_of_isDigit {c d : Char} (h : c.isDigit) (hd : d.isDigit = false) : c ≠ d := by
  rintro rfl
  rw [h] at hd
  cases hd

theorem trimmed_of_forall {p : Char → Bool} {t : Text} (h : ∀ c ∈ t, p c = false) : trimmed p t = t := by
  have hd (u : Text) (hu : ∀ c ∈ u, p c = false) : u.dropWhile p = u := by
    cases u with
    | nil => rfl
    | cons c u => simp [hu c (by simp)]
  rw [trimmed, hd t h, hd t.reverse (by simpa using h), List.reverse_reverse]

theorem withoutGroupMarks?_of_notMem {t : Text} (h : '_' ∉ t) : withoutGroupMarks? t = some t := by
  fun_induction withoutGroupMarks? t with
  | case1 => rfl
  | case2 => simp at h
  | case3 => simp at h
  | case4 => simp at h
  | case5 c rest _ _ ih =>
    rw [ih fun hm => h (List.mem_cons_of_mem c hm)]
    rfl

section Digits

variable {t : Text} (h : ∀ c ∈ t, c.isDigit)
include h

theorem withPlainDigits_of_digits : withPlainDigits t = t := by
  rw [withPlainDigits]
  conv_rhs => rw [← List.map_id t]
  apply List.map_congr_left
  intro c hc
  obtain ⟨n, hn, rfl⟩ := exists_digitChar_of_isDigit (h c hc)
  rw [digitValue?, if_pos (h _ hc), Nat.toNat_digitChar_of_lt_ten hn]
  simp

theorem words_of_digits (hne : t ≠ []) : words t = [t] := by
  rw [words, List.splitOnP_eq_singleton fun c hc => isBlank_of_isDigit (h c hc)]
  simp [hne]

end Digits

theorem digitsValue_ofNat (n : Nat) : digitsValue (ofNat n) = n := Nat.ofDigitChars_ten_toDigits

theorem digitsValue_zeroPadded (width n : Nat) : digitsValue (zeroPadded width n) = n := by
  have hz (k : Nat) : Nat.ofDigitChars 10 (List.replicate k '0') 0 = 0 := by
    induction k with
    | zero => rfl
    | succ k ih => exact ih
  rw [zeroPadded, List.leftpad, digitsValue, Nat.ofDigitChars_append, hz]
  exact digitsValue_ofNat n

/-- The text is made of plain digits, which are those of `n`, and it is short enough to be read. -/
structure Spells (t : Text) (n : Nat) : Prop where
  digits : ∀ c ∈ t, c.isDigit
  ne_nil : t ≠ []
  length_le : t.length ≤ Reading.maxDigits
  value : digitsValue t = n

theorem spells_zeroPadded {width n : Nat} (hw : width ≤ 20) (hn : n < 10 ^ 20) :
    Spells (zeroPadded width n) n where
  digits := fun _ hc => isDigit_of_mem_zeroPadded hc
  ne_nil := by
    have hl : 0 < (ofNat n).length := Nat.length_toDigits_pos
    rw [← List.length_pos_iff, zeroPadded, List.length_leftpad]
    omega
  length_le := by
    have hl : (ofNat n).length ≤ 20 := (Nat.length_toDigits_le_iff (by decide) (by decide)).mpr hn
    rw [zeroPadded, List.length_leftpad, Reading.maxDigits]
    omega
  value := digitsValue_zeroPadded width n

theorem spells_ofNat {n : Nat} (hn : n < 10 ^ 20) : Spells (ofNat n) n := by
  simpa [zeroPadded, List.leftpad] using spells_zeroPadded (show 0 ≤ 20 by decide) hn

end Text

namespace Reading

variable {t : Text} {n : Nat}

/-- A sign, a group mark and a separator are no digits. -/
theorem notMem_of_spells (h : Text.Spells t n) {c : Char} (hc : c.isDigit = false) : c ∉ t :=
  fun hm => Text.ne_of_isDigit (h.digits c hm) hc rfl

theorem integer_of_spells (h : Text.Spells t n) : integer t = .ok n := by
  have hs : Binary64.signed t = (false, t) := by
    unfold Binary64.signed
    split
    · exact absurd List.mem_cons_self (notMem_of_spells h (c := '-') rfl)
    · exact absurd List.mem_cons_self (notMem_of_spells h (c := '+') rfl)
    · rfl
  have ht : t.takeWhile (fun c => c.isDigit || c = '_') = t := by
    rw [List.takeWhile_eq_self_iff]
    intro c hc
    simp [h.digits c hc]
  have hf : t.filter (·.isDigit) = t := List.filter_eq_self.mpr h.digits
  have hr : isRun t := by
    simp [isRun, h.ne_nil, Text.withoutGroupMarks?_of_notMem (notMem_of_spells h (c := '_') rfl)]
  rw [integer, Text.withPlainDigits_of_digits h.digits,
    Text.trimmed_of_forall fun c hc => Text.isWhite_of_isDigit (h.digits c hc), hs]
  simp [ht, hf, hr, h.length_le, h.value]

/-- The digits of a number of up to 63 bits are read as that number. -/
theorem firstInteger_ofInt {n : Int} (h0 : 0 ≤ n) (h : n < 2 ^ 63) :
    firstInteger (Text.ofInt n) = .ok n := by
  obtain ⟨k, rfl⟩ := Int.eq_ofNat_of_zero_le h0
  have hs : Text.Spells (Text.ofNat k) k := Text.spells_ofNat (by omega)
  rw [firstInteger, show Text.ofInt k = Text.ofNat k from rfl, Text.words_of_digits hs.digits hs.ne_nil]
  exact integer_of_spells hs

/-- Three numerals with separators between them are read one by one. -/
theorem threeIntegers_of_spells {separator : Char} (hsep : separator.isDigit = false) {a b c : Text}
    {x y z : Nat} (ha : Text.Spells a x) (hb : Text.Spells b y) (hc : Text.Spells c z) :
    threeIntegers separator (a ++ separator :: (b ++ separator :: c)) = .ok (x, y, z) := by
  have hl : (a ++ separator :: (b ++ separator :: c)).splitOn separator = [a, b, c] := by
    rw [List.splitOn_append_cons_self, List.splitOn_append_cons_self,
      List.splitOn_eq_singleton (notMem_of_spells ha hsep),
      List.splitOn_eq_singleton (notMem_of_spells hb hsep),
      List.splitOn_eq_singleton (notMem_of_spells hc hsep)]
    rfl
  simp only [threeIntegers, hl, List.take_succ_cons, List.take_nil, List.mapM_cons,
    List.mapM_nil, integer_of_spells ha, integer_of_spells hb, integer_of_spells hc]
  rfl

section Dates

variable {separator : Char} (hsep : separator = ':' ∨ separator = '-')
include hsep

/-- Six numerals set out as a date and a time are read as the parts of a point in time. -/
theorem timestamp_of_spells {year month day hour minute second : Text} {y m d h n s : Nat}
    (hy : Text.Spells year y) (hm : Text.Spells month m) (hd : Text.Spells day d)
    (hh : Text.Spells hour h) (hn : Text.Spells minute n) (hs : Text.Spells second s) :
    timestamp (year ++ separator :: month ++ separator :: day ++
        ' ' :: hour ++ ':' :: minute ++ ':' :: second) =
      (Timestamp.ofParts y m d h n s 0).mapError .calendar := by
  let date := year ++ separator :: (month ++ separator :: day)
  let time := hour ++ ':' :: (minute ++ ':' :: second)
  have hdigit : separator.isDigit = false ∧ separator ≠ ' ' := by
    rcases hsep with rfl | rfl
    · decide
    · decide
  have hsplit : (date ++ ' ' :: time).splitOn ' ' = [date, time] := by
    have blank {u : Text} {k : Nat} (hu : Text.Spells u k) : ' ' ∉ u := notMem_of_spells hu rfl
    rw [List.splitOn_append_cons_self, List.splitOn_eq_singleton, List.splitOn_eq_singleton]
    · rfl
    · simp [time, blank hh, blank hn, blank hs]
    · simp [date, blank hy, blank hm, blank hd, hdigit.2.symm]
  have hmark : (if date.contains ':' then ':' else '-') = separator := by
    have colon {u : Text} {k : Nat} (hu : Text.Spells u k) : ':' ∉ u := notMem_of_spells hu rfl
    rcases hsep with rfl | rfl
    · simp [date]
    · simp [date, colon hy, colon hm, colon hd]
  have hdate : threeIntegers (if date.contains ':' then ':' else '-') date = .ok (y, m, d) := by
    rw [hmark]
    exact threeIntegers_of_spells hdigit.1 hy hm hd
  have htime : threeIntegers ':' time = .ok (h, n, s) := threeIntegers_of_spells rfl hh hn hs
  have he : year ++ separator :: month ++ separator :: day ++ ' ' :: hour ++ ':' :: minute ++ ':' :: second =
      date ++ ' ' :: time := by
    simp [date, time]
  rw [timestamp, he, hsplit]
  simp only [hdate, htime, bind, Except.bind]

/-- A point in time that is written out in numbers, to the second, is read as that point. -/
theorem timestamp_of_fields (t : Timestamp) {year : Text} (hy : Text.Spells year t.year) :
    timestamp (year ++ separator :: Text.zeroPadded 2 t.month ++ separator :: Text.zeroPadded 2 t.day ++
        ' ' :: Text.zeroPadded 2 t.hour ++ ':' :: Text.zeroPadded 2 t.minute ++
        ':' :: Text.zeroPadded 2 t.second) = .ok t.wholeSecond := by
  obtain ⟨_, _, _, hm, _, hd⟩ := t.isDate
  obtain ⟨hh, hn, hs⟩ := t.isTime
  have hd' := Calendar.daysInMonth_le t.year t.month
  have padded {n : Nat} (h : n < 60) : Text.Spells (Text.zeroPadded 2 n) n :=
    Text.spells_zeroPadded (by decide) (by omega)
  have hparts : Timestamp.ofParts t.year t.month t.day t.hour t.minute t.second 0 =
      .ok t.wholeSecond := t.wholeSecond.ofParts_self
  rw [timestamp_of_spells hsep hy (padded (by omega)) (padded (by omega)) (padded (by omega)) (padded hn)
    (padded hs), hparts]
  rfl

end Dates

theorem timestamp_format (t : Timestamp) :
    timestamp (t.format "%Y:%m:%d %H:%M:%S") = .ok t.wholeSecond := by
  have hy := t.isDate.2.1
  rw [Timestamp.format, if_pos (by decide), PercentPattern.render_dateTime]
  exact timestamp_of_fields (.inl rfl) t (Text.spells_ofNat (by omega))

end Reading

end PhotoNaming
