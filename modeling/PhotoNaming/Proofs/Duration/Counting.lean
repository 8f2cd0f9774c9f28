import PhotoNaming.Proofs.Duration.Adding
import PhotoNaming.Proofs.Binary64.Rounding

/-! How often a unit is counted in a length of time. The count is a rounded quotient: it may be one too many
where the length is within a rounding of the next whole unit. -/
namespace PhotoNaming.Duration

/-- A length of time in which 24000000000 hours are counted, if only by rounding. That many hours are longer
than any length of time. -/
def IsOverlong (d : Duration) : Prop := 86399999999999993134 ≤ d.microseconds

variable {d : Duration} {n unit : Nat}

theorem count_of_neg (h : d.microseconds < 0) : d.count unit = 0 := by
  refine Binary64.wholePart_of_isNegative ?_
  rw [Binary64.isNegative_ofQuotient, decide_eq_true h]

/-- Lengths of time are not too long for their quotients to be finite. -/
theorem count_eq (hu : 0 < unit) (hd : d.microseconds = n) (hn : n < 2 ^ 53 * unit) :
    d.count unit = Binary64.nearestUnits (n * Binary64.one) unit / Binary64.one := by
  rw [count, hd, Binary64.ofQuotient_natCast hu hn, Binary64.wholePart]

/-- Whole units are all counted, and at most one more. -/
theorem count_bounds (hu : 0 < unit) (hd : d.microseconds = n) (hn : n < 2 ^ 53 * unit) :
    n / unit ≤ d.count unit ∧ d.count unit ≤ n / unit + 1 := by
  obtain ⟨e, he⟩ := Binary64.exists_one_eq (Nat.zero_le 1074)
  rw [count_eq hu hd hn, he]
  exact Binary64.div_le_nearestUnits_div hu hn e

/-- One unit too many is counted where the quotient rounds up. -/
theorem count_eq_div_add (hu : 0 < unit) (hu' : unit < 2 ^ 53) (hd : d.microseconds = n)
    (hn : n < 2 ^ 52 * unit) : d.count unit = n / unit + if Binary64.RoundsUp n unit then 1 else 0 := by
  rw [count_eq hu hd (by omega), Binary64.nearestUnits_div_one hu hu' hn]

/-- Less than a unit is left when all counted units are taken away, and at most a unit too many is. -/
theorem sub_count_bounds (hu : second ≤ unit) :
    d.microseconds - (d.count unit * unit : Nat) < unit ∧
      min d.microseconds (-unit) ≤ d.microseconds - (d.count unit * unit : Nat) := by
  rw [second] at hu
  rcases lt_or_ge d.microseconds 0 with hneg | hpos
  · rw [count_of_neg hneg]
    omega
  · obtain ⟨n, hn⟩ := Int.eq_ofNat_of_zero_le hpos
    have hlt := d.upper
    obtain ⟨hl, hr⟩ := count_bounds (show 0 < unit by omega) hn (by omega)
    have hl' := Nat.mul_le_mul_right unit hl
    have hr' := Nat.mul_le_mul_right unit hr
    have he := Nat.div_add_mod n unit
    have hm := Nat.mod_lt n (show 0 < unit by omega)
    rw [Nat.mul_comm] at he
    rw [Nat.add_mul] at hr'
    generalize d.count unit * unit = taken at *
    generalize n / unit * unit = whole at *
    omega

/-- Just below 24000000000 hours, quotients round up where at most 6866 microseconds are missing. -/
theorem le_count_hour_iff : 24000000000 ≤ d.count hour ↔ d.IsOverlong := by
  rw [IsOverlong]
  rcases lt_or_ge d.microseconds 0 with hneg | hpos
  · rw [count_of_neg hneg]
    omega
  · obtain ⟨n, hn⟩ := Int.eq_ofNat_of_zero_le hpos
    have hlt := d.upper
    have hh : hour = 3600000000 := rfl
    rw [count_eq_div_add (by decide) (by decide) hn (by omega), hn, hh]
    rcases Nat.lt_or_ge (n / 3600000000) 23999999999 with hlow | hhigh
    · constructor
      · intro h
        split at h <;> omega
      · omega
    · have hq : n / 3600000000 = 23999999999 := by omega
      have hlog : Nat.log2 23999999999 = 34 := by decide
      have hr : Binary64.RoundsUp n 3600000000 ↔ 86399999999999993134 ≤ n := by
        rw [Binary64.RoundsUp, hq, hlog]
        omega
      rw [hq]
      by_cases h : Binary64.RoundsUp n 3600000000
      · have hle := hr.mp h
        rw [if_pos h]
        omega
      · have hgt := mt hr.mpr h
        rw [if_neg h]
        omega

/-- Counted units can be taken away as long as they make a length of time. -/
theorem without_count (hs : second ≤ unit) (hh : unit ≤ hour)
    (hc : d.count unit * unit ≤ 86399999999999999999) :
    ∃ rest, d.without (d.count unit) unit = .ok rest ∧
      rest.microseconds = d.microseconds - (d.count unit * unit : Nat) := by
  have hb := (sub_count_bounds hs (d := d)).2
  have hd := d.lower
  have hu := d.upper
  rw [show hour = 3600000000 from rfl] at hh
  have hrest : Fits (d.microseconds - (d.count unit * unit : Nat)) := ⟨by omega, by omega⟩
  refine ⟨⟨_, hrest.1, hrest.2⟩, ?_, rfl⟩
  rw [without, ofMicroseconds_eq_ok ⟨by omega, by omega⟩]
  exact ofMicroseconds_eq_ok hrest

theorem fileText_eq {below rest : Duration} (hh : d.without (d.count hour) hour = .ok below)
    (hm : below.without (below.count minute) minute = .ok rest) :
    d.fileText = .ok (countText (d.count hour) 'h' ++ countText (below.count minute) 'm' ++
      rest.seconds.numberText ++ ['s']) := by
  rw [fileText]
  dsimp only
  rw [hh, ok_bind, hm, ok_bind]
  rfl

/-- Every other length of time has a form in file names. -/
theorem exists_fileText (h : ¬ d.IsOverlong) : ∃ text, d.fileText = .ok text := by
  have hhours : d.count hour < 24000000000 := not_le.mp (mt le_count_hour_iff.mp h)
  have htaken := Nat.mul_le_mul_right hour (Nat.le_of_lt_succ hhours)
  obtain ⟨below, hb, hbelow⟩ := without_count (d := d) (by decide) le_rfl (htaken.trans (by decide))
  have hminutes : below.count minute * minute ≤ 86399999999999999999 := by
    have hbl := (sub_count_bounds (d := d) (show second ≤ hour by decide)).1
    have hmb := (sub_count_bounds (d := below) (show second ≤ minute by decide)).2
    have hh : hour = 3600000000 := rfl
    have hm : minute = 60000000 := rfl
    omega
  obtain ⟨rest, hr, _⟩ := without_count (by decide) (by decide) hminutes
  exact ⟨_, fileText_eq hb hr⟩

theorem fileText_of_isOverlong (h : d.IsOverlong) : d.fileText = .error (.days 1000000000) := by
  have hc : d.count hour = 24000000000 := by
    have hl := le_count_hour_iff.mpr h
    have hu := d.upper
    rw [IsOverlong] at h
    obtain ⟨n, hn⟩ := Int.eq_ofNat_of_zero_le (show 0 ≤ d.microseconds by omega)
    have hb := (count_bounds (show 0 < hour by decide) hn (by rw [show hour = 3600000000 from rfl]; omega)).2
    rw [show hour = 3600000000 from rfl] at hb hl ⊢
    omega
  have hw : ofMicroseconds (24000000000 * hour : Nat) = .error (.days 1000000000) := rfl
  rw [fileText]
  dsimp only
  rw [hc, without, hw, error_bind, error_bind]

end PhotoNaming.Duration
