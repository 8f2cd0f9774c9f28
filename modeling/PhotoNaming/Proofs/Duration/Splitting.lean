import PhotoNaming.Proofs.Duration.Counting
import PhotoNaming.Proofs.Text.Decoding

/-! Lengths of time as hours, minutes and seconds. File names show the exact parts, but for lengths so near
below a whole number of hours that their quotient is rounded to it. -/
namespace PhotoNaming.Duration

open Binary64 (RoundsUp)

/-- The whole hours and the whole minutes of the last hour, each where there are any, and always the seconds
of the last minute. -/
def splitText (n : Nat) : Text :=
  (if 1 ≤ n / hour then Text.ofNat (n / hour) ++ ['h'] else []) ++
    (if 1 ≤ n % hour / minute then Text.ofNat (n % hour / minute) ++ ['m'] else []) ++
    (Binary64.ofQuotient (n % minute : Nat) second).numberText ++ ['s']

/-- What is shown where the hours are rounded up: an hour too many, and negative seconds. -/
def roundedText (n : Nat) : Text :=
  countText (n / hour + 1) 'h' ++
    (Binary64.ofQuotient (n - ((n / hour + 1) * hour : Nat)) second).numberText ++ ['s']

variable {d : Duration} {n unit : Nat}

theorem countText_eq (count : Nat) (letter : Char) :
    countText count letter = if 1 ≤ count then Text.ofNat count ++ [letter] else [] := by
  cases count with
  | zero => rfl
  | succ count => simp [countText]

theorem minutes_lt (n : Nat) : n % hour / minute < 60 := by
  rw [show minute = 60000000 from rfl, show hour = 3600000000 from rfl]
  omega

/-- A count of units is exact unless the quotient rounds up. -/
theorem exists_without_div (hs : second ≤ unit) (hh : unit ≤ hour) (hd : d.microseconds = n)
    (hr : ¬ RoundsUp n unit) :
    d.count unit = n / unit ∧ ∃ rest, d.without (n / unit) unit = .ok rest ∧ rest.microseconds = (n % unit : Nat) := by
  have hlt := d.upper
  have hsecond : second = 1000000 := rfl
  have hhour : hour = 3600000000 := rfl
  have hc : d.count unit = n / unit := by
    rw [count_eq_div_add (by omega) (by omega) hd (by omega), if_neg hr, Nat.add_zero]
  have hmod := Nat.div_add_mod' n unit
  obtain ⟨rest, hrest, heq⟩ := without_count hs hh (d := d) (by rw [hc]; omega)
  rw [hc] at hrest heq
  exact ⟨hc, rest, hrest, by omega⟩

/-- The seconds of a minute stay below 60 when they are rounded. -/
theorem exists_seconds (n : Nat) :
    ∃ units < 60 * Binary64.one, Binary64.ofQuotient (n % minute : Nat) second = .finite false units := by
  have hsecond : second = 1000000 := rfl
  have hmod : n % minute < 60000000 := Nat.mod_lt n (by decide)
  have hlt : n % minute / second < 60 := by
    rw [hsecond]
    omega
  have hr : ¬ RoundsUp (n % minute) second :=
    Binary64.not_roundsUp (k := 6) (by decide) (by omega) (by decide)
  have hdiv := Binary64.nearestUnits_div_one (by decide) (by decide)
    (show n % minute < 2 ^ 52 * second by rw [hsecond]; omega)
  rw [if_neg hr, Nat.add_zero] at hdiv
  refine ⟨_, ?_, Binary64.ofQuotient_natCast (by decide) (by rw [hsecond]; omega)⟩
  rw [← Nat.div_lt_iff_lt_mul (by decide +kernel), hdiv]
  exact hlt

theorem fileText_of_not_roundsUp (hd : d.microseconds = n) (hr : ¬ RoundsUp n hour) :
    d.fileText = .ok (splitText n) := by
  obtain ⟨hhours, below, hb, hbelow⟩ := exists_without_div (by decide) le_rfl hd hr
  have hr' : ¬ RoundsUp (n % hour) minute :=
    Binary64.not_roundsUp (k := 6) (by decide) ((minutes_lt n).trans (by decide)) (by decide)
  obtain ⟨hminutes, rest, hrest, heq⟩ := exists_without_div (by decide) (by decide) hbelow hr'
  rw [← hhours] at hb
  rw [← hminutes] at hrest
  rw [fileText_eq hb hrest, hhours, hminutes, seconds, heq, Nat.mod_mod_of_dvd n (show minute ∣ hour by decide),
    countText_eq, countText_eq]
  rfl

theorem fileText_of_roundsUp (hd : d.microseconds = n) (hr : RoundsUp n hour) (hl : ¬ d.IsOverlong) :
    d.fileText = .ok (roundedText n) := by
  have hhour : hour = 3600000000 := rfl
  have hlt := d.upper
  have hhours : d.count hour = n / hour + 1 := by
    rw [count_eq_div_add (by decide) (by decide) hd (by omega), if_pos hr]
  have hbound : d.count hour < 24000000000 := not_le.mp (mt le_count_hour_iff.mp hl)
  obtain ⟨below, hb, hbelow⟩ := without_count (d := d) (by decide) le_rfl (by rw [hhour] at *; omega)
  have hmod := Nat.div_add_mod' n hour
  have hrest := Nat.mod_lt n (show 0 < hour by decide)
  have hneg : below.microseconds < 0 := by
    rw [hbelow, hd, hhours, Nat.add_mul]
    omega
  have hminutes : below.count minute = 0 := count_of_neg hneg
  obtain ⟨rest, hrest, heq⟩ := without_count (d := below) (show second ≤ minute by decide) (by decide)
    (by rw [hminutes]; decide)
  have hrest' : rest.microseconds = n - ((n / hour + 1) * hour : Nat) := by
    rw [heq, hminutes, hbelow, hd, hhours]
    simp
  have hnone : countText 0 'm' = [] := rfl
  rw [fileText_eq hb hrest, hhours, hminutes, seconds, hrest', hnone, List.append_nil]
  rfl

/-- The digits in front of a letter tell two counts apart. -/
theorem eq_of_ofNat_append {a b : Nat} {u v : Text} {letter : Char} (hl : letter.isDigit = false)
    (h : Text.ofNat a ++ ([letter] ++ u) = Text.ofNat b ++ ([letter] ++ v)) : a = b := by
  have hhead (t : Text) : ∀ c ∈ ([letter] ++ t).head?, c.isDigit = false := by
    intro c hc
    cases hc
    exact hl
  exact Text.ofNat_injective (Text.digits_append_inj (fun _ => Text.isDigit_of_mem_ofNat)
    (fun _ => Text.isDigit_of_mem_ofNat) (hhead u) (hhead v) h).1

theorem splitText_ne_roundedText (hr : RoundsUp n hour) : splitText n ≠ roundedText n := by
  have hpos : 1 ≤ n / hour := by
    by_contra h
    exact Binary64.not_roundsUp (k := 0) (by decide) (by omega) (by decide) hr
  intro h
  rw [splitText, roundedText, countText_eq, if_pos hpos, if_pos (Nat.le_add_left 1 (n / hour))] at h
  simp only [List.append_assoc] at h
  have hhours : n / hour = n / hour + 1 := eq_of_ofNat_append (by decide) h
  omega

/-- A length of time that is not negative is shown by its exact hours, minutes and seconds if, and only if, its
quotient in hours does not round up. Where it does, an hour too many is shown with negative seconds, or there
is nothing to show, for that many hours are longer than any length of time. -/
theorem fileText_splits (d : Duration) (n : Nat) (hn : d.microseconds = n) :
    (d.fileText = .ok (splitText n) ↔ ¬ RoundsUp n hour) ∧
      (RoundsUp n hour → ¬ d.IsOverlong → d.fileText = .ok (roundedText n)) ∧
      (d.IsOverlong → d.fileText = .error (.days 1000000000)) ∧
      n % hour / minute < 60 ∧
      ∃ units < 60 * Binary64.one, Binary64.ofQuotient (n % minute : Nat) second = .finite false units := by
  refine ⟨⟨fun h hr => ?_, fileText_of_not_roundsUp hn⟩, fileText_of_roundsUp hn, fileText_of_isOverlong,
    minutes_lt n, exists_seconds n⟩
  by_cases hl : d.IsOverlong
  · rw [fileText_of_isOverlong hl] at h
    cases h
  · rw [fileText_of_roundsUp hn hr hl] at h
    exact splitText_ne_roundedText hr (Except.ok.inj h).symm

/-- An hour, two minutes and three and a half seconds; a microsecond less than 4194305 hours; and the greatest
length of time. -/
theorem three_lengths_split :
    (⟨3723500000, by decide, by decide⟩ : Duration).fileText = .ok "1h2m3.5s".toList ∧
      (⟨15099497999999999, by decide, by decide⟩ : Duration).fileText = .ok "4194305h-1e-06s".toList ∧
      (⟨86399999999999999999, by decide, by decide⟩ : Duration).fileText = .error (.days 1000000000) := by
  have hsplit : splitText 3723500000 = "1h2m3.5s".toList := by decide +kernel
  have hrounded : roundedText 15099497999999999 = "4194305h-1e-06s".toList := by decide +kernel
  refine ⟨?_, ?_, ?_⟩
  · rw [← hsplit]
    exact (fileText_splits _ 3723500000 rfl).1.mpr (by decide)
  · rw [← hrounded]
    exact (fileText_splits _ 15099497999999999 rfl).2.1 (by decide) (by rw [IsOverlong]; decide)
  · exact (fileText_splits _ 86399999999999999999 rfl).2.2.1 (by rw [IsOverlong]; decide)

/-- A microsecond less than 4194305 hours is shown as that many hours and -1e-06 seconds. -/
theorem fileText_below_4194305_hours :
    (⟨15099497999999999, by decide, by decide⟩ : Duration).fileText = .ok "4194305h-1e-06s".toList ∧
      splitText 15099497999999999 = "4194304h59m59.999999s".toList := by
  decide +kernel

end PhotoNaming.Duration
