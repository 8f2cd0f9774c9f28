import PhotoNaming.Proofs.Binary64.Rounding

/-! Numbers that are held exactly. Rounding leaves them as they are, and it depends on a quotient only, not
on how the quotient is written. -/
namespace PhotoNaming.Binary64

variable {num den num' den' k units : Nat} {negative : Bool}

/-- A number of units that lies on the spacing near it, and is in range. -/
structure IsHeld (units : Nat) : Prop where
  dvd : spacing units ∣ units
  lt : units < limit

theorem roundedQuotient_mul_right (hk : 0 < k) :
    roundedQuotient (num * k) (den * k) = roundedQuotient num den := by
  have hhalf (rest : Nat) : 2 * (rest * k) = 2 * rest * k := by ring
  simp only [roundedQuotient, Nat.mul_div_mul_right _ _ hk, Nat.mul_mod_mul_right, hhalf,
    Nat.mul_lt_mul_right hk, Nat.mul_left_inj hk.ne']

theorem nearestUnits_mul_right (hk : 0 < k) : nearestUnits (num * k) (den * k) = nearestUnits num den := by
  rw [nearestUnits, Nat.mul_div_mul_right _ _ hk, Nat.mul_right_comm, roundedQuotient_mul_right hk]
  rfl

theorem ofUnits_mul_right (hk : 0 < k) : ofUnits negative (num * k) (den * k) = ofUnits negative num den := by
  rw [ofUnits, nearestUnits_mul_right hk]
  rfl

theorem ofRatio_mul_right (hk : 0 < k) : ofRatio negative (num * k) (den * k) = ofRatio negative num den := by
  rw [ofRatio, Nat.mul_right_comm, ofUnits_mul_right hk]
  rfl

/-- Equal fractions are rounded alike. -/
theorem ofRatio_eq_of_cross (hd : 0 < den) (hd' : 0 < den') (h : num * den' = num' * den) :
    ofRatio negative num den = ofRatio negative num' den' := by
  rw [← ofRatio_mul_right hd', h, Nat.mul_comm den, ofRatio_mul_right hd]

theorem nearestUnits_of_dvd (h : spacing units ∣ units) : nearestUnits units 1 = units := by
  have hs : spacing (units / 1) ∣ units := by rwa [Nat.div_one]
  exact Nat.le_antisymm (nearestUnits_le Nat.one_pos hs (by omega)) (le_nearestUnits Nat.one_pos hs (by omega))

/-- What has been rounded lies on the spacing near it: where rounding goes up to the next power of two, on
that power. -/
theorem spacing_dvd_nearestUnits (hd : 0 < den) :
    spacing (nearestUnits num den) ∣ nearestUnits num den := by
  have hstep : spacing (num / den) ∣ nearestUnits num den := Nat.dvd_mul_left _ _
  have hpow : num ≤ 2 ^ ((num / den).log2 + 1) * den :=
    ((Nat.div_lt_iff_lt_mul hd).mp Nat.lt_log2_self).le
  have hs : spacing (num / den) ∣ 2 ^ ((num / den).log2 + 1) := Nat.pow_dvd_pow 2 (by omega)
  rcases (nearestUnits_le hd hs hpow).lt_or_eq with hlt | heq
  · refine dvd_trans (Nat.pow_dvd_pow 2 ?_) hstep
    rcases Nat.eq_zero_or_pos (nearestUnits num den) with hz | hpos
    · simp [hz]
    · have hl := (Nat.log2_lt hpos.ne').mpr hlt
      omega
  · rw [heq, spacing, Nat.log2_two_pow]
    exact Nat.pow_dvd_pow 2 (Nat.sub_le _ _)

/-- Quotients of integers are held once they are rounded. -/
theorem isHeld_nearestUnits (hd : 0 < den) (h : num < 2 ^ 53 * den) :
    IsHeld (nearestUnits (num * one) den) :=
  ⟨spacing_dvd_nearestUnits hd, nearestUnits_mul_one_lt_limit hd h⟩

theorem ofUnits_of_isHeld (h : IsHeld units) : ofUnits negative units 1 = finite negative units := by
  have hn := nearestUnits_of_dvd h.dvd
  rw [ofUnits_of_lt (by rw [hn]; exact h.lt), hn]

theorem one_pos : 0 < one := by
  obtain ⟨e, he⟩ := exists_one_eq (Nat.zero_le 1074)
  exact he ▸ Nat.two_pow_pos _

theorem isHeld_mul_one (h : k < 2 ^ 53) : IsHeld (k * one) where
  dvd := by
    obtain ⟨e, he⟩ := exists_one_eq (Nat.zero_le 1074)
    rw [he]
    refine dvd_trans (spacing_dvd ?_) (Nat.dvd_mul_left _ k)
    rw [pow_add 2 53]
    exact Nat.mul_lt_mul_of_pos_right h (Nat.two_pow_pos _)
  lt := by
    calc k * one < (2 ^ 53 + 1) * one := Nat.mul_lt_mul_of_pos_right (by omega) one_pos
      _ ≤ limit := le_limit

/-- Integers of 53 bits are held. -/
theorem ofInt?_natCast (h : k < 2 ^ 53) : ofInt? k = some (finite false (k * one)) := by
  rw [ofInt?, ofRatio, Int.natAbs_natCast, decide_eq_false (by omega), ofUnits_of_isHeld (isHeld_mul_one h)]
  rfl

theorem ofRatio_one (h : IsHeld units) : ofRatio negative units one = finite negative units := by
  have hu : ofUnits negative (units * one) (1 * one) = ofUnits negative units 1 := ofUnits_mul_right one_pos
  rw [Nat.one_mul] at hu
  rw [ofRatio, hu, ofUnits_of_isHeld h]

theorem div?_finite (h : units ≠ 0) (a b : Bool) (m : Nat) :
    div? (finite a m) (finite b units) = some (ofRatio (a != b) m units) := by
  cases units with
  | zero => exact absurd rfl h
  | succ units => rfl

/-- The quotient of held integers is the number nearest to their quotient. -/
theorem div?_mul_one (hk : 0 < k) :
    div? (finite false (num * one)) (finite false (k * one)) = some (ofQuotient num k) := by
  rw [div?_finite (Nat.mul_pos hk one_pos).ne', ofRatio_mul_right one_pos, ofQuotient, Int.natAbs_natCast,
    decide_eq_false (by omega)]
  rfl

theorem div?_zero (x : Binary64) (negative : Bool) : div? x (finite negative 0) = none := by
  cases x <;> rfl

end PhotoNaming.Binary64
