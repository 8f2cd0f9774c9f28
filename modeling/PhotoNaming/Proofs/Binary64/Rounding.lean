import PhotoNaming.Binary64.Basic
import Mathlib.Algebra.Order.Ring.Nat
import Mathlib.Tactic.Linarith
import Mathlib.Tactic.Ring

/-! Bounds on rounded quotients. A quotient is never rounded beyond a number that can be held exactly, and
where it lies between two of these, the even one wins in the middle. -/
namespace PhotoNaming.Binary64

variable {num den k units e gap : Nat} {negative : Bool}

theorem le_roundedQuotient (hd : 0 < den) (h : k * den ≤ num) : k ≤ roundedQuotient num den := by
  have hk : k ≤ num / den := (Nat.le_div_iff_mul_le hd).mpr h
  rw [roundedQuotient]
  split <;> omega

theorem roundedQuotient_le (hd : 0 < den) (h : num ≤ k * den) : roundedQuotient num den ≤ k := by
  have hk : num / den ≤ k := Nat.div_le_of_le_mul (by rwa [Nat.mul_comm])
  rw [roundedQuotient]
  split
  · exact hk
  · rename_i hr
    rcases Nat.lt_or_ge (num / den) k with hlt | hge
    · exact hlt
    · have he := Nat.div_add_mod num den
      rw [Nat.le_antisymm hk hge, Nat.mul_comm den k] at he
      omega

/-- An even number is reached from the middle between it and the number below it. -/
theorem le_roundedQuotient_iff_of_even (hd : 0 < den) (hk : k % 2 = 0) :
    k ≤ roundedQuotient num den ↔ 2 * (k * den) ≤ 2 * num + den := by
  have hr := Nat.mod_lt num hd
  have he := Nat.div_add_mod num den
  rw [roundedQuotient]
  generalize num / den = low at *
  generalize num % den = rest at *
  rcases Nat.lt_trichotomy k (low + 1) with hlt | rfl | hgt
  · have hm : k * den ≤ den * low := by nlinarith
    constructor
    · intro _
      omega
    · intro _
      split <;> omega
  · have hm : (low + 1) * den = den * low + den := by ring
    rw [hm]
    split <;> omega
  · have hm : den * low + 2 * den ≤ k * den := by nlinarith
    constructor
    · intro h
      split at h <;> omega
    · intro h
      omega

/-- Numbers below a power of two are spaced so that smaller powers lie on them. -/
theorem spacing_dvd (h : units < 2 ^ (53 + e)) : spacing units ∣ 2 ^ e := by
  refine Nat.pow_dvd_pow 2 ?_
  rcases Nat.eq_zero_or_pos units with rfl | hpos
  · simp
  · have hl := (Nat.log2_lt hpos.ne').mpr h
    omega

theorem spacing_pos (units : Nat) : 0 < spacing units := Nat.two_pow_pos _

/-- A number on the spacing of a quotient that is not above the quotient is not above its rounding. -/
theorem le_nearestUnits (hd : 0 < den) (hk : spacing (num / den) ∣ k) (h : k * den ≤ num) :
    k ≤ nearestUnits num den := by
  obtain ⟨j, rfl⟩ := hk
  rw [nearestUnits, Nat.mul_comm _ j]
  refine Nat.mul_le_mul_right _ (le_roundedQuotient (Nat.mul_pos hd (spacing_pos _)) ?_)
  calc j * (den * spacing (num / den)) = spacing (num / den) * j * den := by ring
    _ ≤ num := h

theorem nearestUnits_le (hd : 0 < den) (hk : spacing (num / den) ∣ k) (h : num ≤ k * den) :
    nearestUnits num den ≤ k := by
  obtain ⟨j, rfl⟩ := hk
  rw [nearestUnits, Nat.mul_comm _ j]
  refine Nat.mul_le_mul_right _ (roundedQuotient_le (Nat.mul_pos hd (spacing_pos _)) ?_)
  calc num ≤ spacing (num / den) * j * den := h
    _ = j * (den * spacing (num / den)) := by ring

theorem le_nearestUnits_iff (hd : 0 < den) (hk : 2 * spacing (num / den) ∣ k) :
    k ≤ nearestUnits num den ↔ 2 * (k * den) ≤ 2 * num + den * spacing (num / den) := by
  obtain ⟨j, rfl⟩ := hk
  have hs := spacing_pos (num / den)
  have hm : 2 * spacing (num / den) * j = 2 * j * spacing (num / den) := by ring
  rw [nearestUnits, hm, Nat.mul_le_mul_right_iff hs,
    le_roundedQuotient_iff_of_even (Nat.mul_pos hd hs) (Nat.mul_mod_right 2 j)]
  have hp : 2 * j * (den * spacing (num / den)) = 2 * j * spacing (num / den) * den := by ring
  rw [hp]

/-- A power of two is reached from the middle between it and the number below it, which is half as far from
it as the number above. -/
theorem two_pow_le_nearestUnits_iff :
    2 ^ (54 + e) ≤ nearestUnits units 1 ↔ 2 ^ (54 + e) ≤ units + 2 ^ e := by
  have hfar : 2 ^ (54 + e) = 2 * 2 ^ (53 + e) := by ring
  have hnear : 2 ^ (53 + e) = 2 ^ 53 * 2 ^ e := by ring
  have hpos := Nat.two_pow_pos e
  rcases Nat.lt_or_ge units (2 ^ (53 + e)) with hlow | hlow
  · have hs : spacing (units / 1) ∣ 2 ^ (53 + e) := by
      rw [Nat.div_one]
      exact (spacing_dvd hlow).trans (Nat.pow_dvd_pow 2 (Nat.le_add_left _ _))
    have hle := nearestUnits_le Nat.one_pos hs (by omega)
    constructor <;> intro h <;> omega
  · have hne : units ≠ 0 := by omega
    rcases Nat.lt_or_ge units (2 ^ (54 + e)) with hhigh | hhigh
    · have hlog : units.log2 = 53 + e := by
        refine Nat.le_antisymm ?_ ((Nat.le_log2 hne).mpr hlow)
        have hlt := (Nat.log2_lt hne).mpr hhigh
        omega
      have hs : spacing (units / 1) = 2 * 2 ^ e := by
        rw [Nat.div_one, spacing, hlog, Nat.pow_eq, show 53 + e - 52 = e + 1 by omega]
        ring
      have hk : 2 * spacing (units / 1) ∣ 2 ^ (54 + e) := by
        rw [hs, show 2 * (2 * 2 ^ e) = 2 ^ (2 + e) by ring]
        exact Nat.pow_dvd_pow 2 (by omega)
      rw [le_nearestUnits_iff Nat.one_pos hk, hs]
      omega
    · have hs : spacing (units / 1) ∣ 2 ^ units.log2 := by
        rw [Nat.div_one]
        exact Nat.pow_dvd_pow 2 (Nat.sub_le _ _)
      have hle := le_nearestUnits Nat.one_pos hs (by rw [Nat.mul_one]; exact Nat.log2_self_le hne)
      have hpow : 2 ^ (54 + e) ≤ 2 ^ units.log2 :=
        Nat.pow_le_pow_right (by decide) ((Nat.le_log2 hne).mpr hhigh)
      constructor <;> intro _ <;> omega

theorem one_eq : one = 2 ^ 1074 := by decide +kernel

theorem le_limit : (2 ^ 53 + 1) * one ≤ limit := by decide +kernel

/-- One is a power of two of units; any smaller power can be split off. -/
theorem exists_one_eq (h : k ≤ 1074) : ∃ e, one = 2 ^ (e + k) :=
  ⟨1074 - k, (Nat.sub_add_cancel h).symm ▸ one_eq⟩

/-- A quotient of integers, in units that are a power of two, is rounded to nothing beyond the whole numbers
on its two sides. -/
theorem div_le_nearestUnits_div (hd : 0 < den) (h : num < 2 ^ 53 * den) (e : Nat) :
    num / den ≤ nearestUnits (num * 2 ^ e) den / 2 ^ e ∧
      nearestUnits (num * 2 ^ e) den / 2 ^ e ≤ num / den + 1 := by
  have hp : 0 < 2 ^ e := Nat.two_pow_pos e
  have hq : num * 2 ^ e / den < 2 ^ (53 + e) := by
    rw [Nat.div_lt_iff_lt_mul hd, Nat.pow_add]
    calc num * 2 ^ e < 2 ^ 53 * den * 2 ^ e := Nat.mul_lt_mul_of_pos_right h hp
      _ = 2 ^ 53 * 2 ^ e * den := by ring
  have hs (k : Nat) : spacing (num * 2 ^ e / den) ∣ k * 2 ^ e := Dvd.dvd.mul_left (spacing_dvd hq) k
  have he := Nat.div_add_mod num den
  have hr := Nat.mod_lt num hd
  constructor
  · rw [Nat.le_div_iff_mul_le hp]
    refine le_nearestUnits hd (hs _) ?_
    calc num / den * 2 ^ e * den = den * (num / den) * 2 ^ e := by ring
      _ ≤ num * 2 ^ e := Nat.mul_le_mul_right _ (Nat.mul_div_le num den)
  · refine Nat.div_le_of_le_mul ?_
    rw [Nat.mul_comm (2 ^ e)]
    refine nearestUnits_le hd (hs _) ?_
    calc num * 2 ^ e ≤ (den * (num / den) + den) * 2 ^ e := Nat.mul_le_mul_right _ (by omega)
      _ = (num / den + 1) * 2 ^ e * den := by ring

theorem log2_mul_two_pow_div (h : 0 < num / den) (e : Nat) :
    (num * 2 ^ e / den).log2 = (num / den).log2 + e := by
  have hd : 0 < den := Nat.pos_of_ne_zero fun hz => by simp [hz] at h
  have hlow : 2 ^ (num / den).log2 * den ≤ num := (Nat.le_div_iff_mul_le hd).mp (Nat.log2_self_le h.ne')
  have hhigh : num < 2 ^ ((num / den).log2 + 1) * den := (Nat.div_lt_iff_lt_mul hd).mp Nat.lt_log2_self
  have hle : 2 ^ ((num / den).log2 + e) ≤ num * 2 ^ e / den := by
    rw [Nat.le_div_iff_mul_le hd, pow_add, Nat.mul_right_comm]
    exact Nat.mul_le_mul_right _ hlow
  have hlt : num * 2 ^ e / den < 2 ^ ((num / den).log2 + e + 1) := by
    rw [Nat.div_lt_iff_lt_mul hd, Nat.add_right_comm, pow_add, Nat.mul_right_comm]
    exact Nat.mul_lt_mul_of_pos_right hhigh (Nat.two_pow_pos e)
  exact (Nat.log2_eq_iff (Nat.lt_of_lt_of_le (Nat.two_pow_pos _) hle).ne').mpr ⟨hle, hlt⟩

/-- The quotient lies below a whole number by no more than half of what the numbers there are apart. These
have 53 binary digits. -/
def RoundsUp (num den : Nat) : Prop :=
  2 ^ (53 - (num / den).log2) * ((num / den + 1) * den - num) ≤ den

instance (num den : Nat) : Decidable (RoundsUp num den) := inferInstanceAs (Decidable (_ ≤ _))

/-- A whole number is reached from a quotient below it if the gap is at most half a spacing. -/
theorem mul_le_nearestUnits_iff (hd : 0 < den) (hs : 2 * spacing (num * 2 ^ e / den) ∣ 2 ^ e)
    (hgap : k * den = num + gap) :
    k * 2 ^ e ≤ nearestUnits (num * 2 ^ e) den ↔ 2 * (gap * 2 ^ e) ≤ den * spacing (num * 2 ^ e / den) := by
  have hm : k * 2 ^ e * den = num * 2 ^ e + gap * 2 ^ e := by rw [Nat.mul_right_comm, hgap, Nat.add_mul]
  rw [le_nearestUnits_iff hd (Dvd.dvd.mul_left hs k), hm]
  omega

/-- Quotients with less than 53 binary digits are rounded to the next whole number just where they round up. -/
theorem lt_nearestUnits_div_iff (hd : 0 < den) (hd' : den < 2 ^ 53) (h : num < 2 ^ 52 * den) (e : Nat) :
    num / den < nearestUnits (num * 2 ^ (e + 53)) den / 2 ^ (e + 53) ↔ RoundsUp num den := by
  obtain ⟨gap, hgap⟩ : ∃ gap, (num / den + 1) * den = num + (gap + 1) := by
    have hmod := Nat.div_add_mod' num den
    have hlt := Nat.mod_lt num hd
    exact ⟨den - num % den - 1, by rw [Nat.succ_mul]; omega⟩
  rw [RoundsUp, ← Nat.succ_le_iff, Nat.succ_eq_add_one, Nat.le_div_iff_mul_le (Nat.two_pow_pos _), hgap,
    Nat.add_sub_cancel_left]
  rcases Nat.eq_zero_or_pos (num / den) with hz | hq
  · have hnum : num < den := by
      rw [hz] at hgap
      omega
    have hs : spacing (num * 2 ^ (e + 53) / den) ∣ 2 ^ e := by
      refine spacing_dvd ((Nat.div_lt_iff_lt_mul hd).mpr ?_)
      rw [Nat.add_comm, Nat.mul_comm]
      exact Nat.mul_lt_mul_of_pos_left hnum (Nat.two_pow_pos _)
    have hle := Nat.mul_le_mul_left den (Nat.le_of_dvd (Nat.two_pow_pos e) hs)
    have hlt : den * 2 ^ e < 2 * ((gap + 1) * 2 ^ (e + 53)) := by
      calc den * 2 ^ e < 2 ^ 53 * 2 ^ e := Nat.mul_lt_mul_of_pos_right hd' (Nat.two_pow_pos e)
        _ = 2 ^ (e + 53) := by ring
        _ ≤ (gap + 1) * 2 ^ (e + 53) := Nat.le_mul_of_pos_left _ (Nat.succ_pos gap)
        _ ≤ 2 * ((gap + 1) * 2 ^ (e + 53)) := Nat.le_mul_of_pos_left _ Nat.two_pos
    rw [mul_le_nearestUnits_iff hd ((Nat.mul_dvd_mul_left 2 hs).trans ⟨2 ^ 52, by ring⟩) hgap, hz, Nat.log2_zero]
    constructor <;> intro _ <;> omega
  · have hlog : (num / den).log2 < 52 := (Nat.log2_lt hq.ne').mpr ((Nat.div_lt_iff_lt_mul hd).mpr h)
    have hstep : spacing (num * 2 ^ (e + 53) / den) = 2 ^ ((num / den).log2 + e + 1) := by
      rw [spacing, log2_mul_two_pow_div hq, Nat.pow_eq]
      rfl
    have hdvd : 2 * spacing (num * 2 ^ (e + 53) / den) ∣ 2 ^ (e + 53) := by
      rw [hstep, ← Nat.pow_succ']
      exact Nat.pow_dvd_pow 2 (by omega)
    have hsplit : 2 * 2 ^ (e + 53) = 2 ^ (53 - (num / den).log2) * 2 ^ ((num / den).log2 + e + 1) := by
      rw [← Nat.pow_succ', ← pow_add]
      congr 1
      omega
    rw [mul_le_nearestUnits_iff hd hdvd hgap, hstep, Nat.mul_left_comm, hsplit, ← Nat.mul_assoc,
      Nat.mul_le_mul_right_iff (Nat.two_pow_pos _), Nat.mul_comm]

/-- A quotient by a small number keeps away from the next whole number. -/
theorem not_roundsUp (hd : 0 < den) (h : num / den < 2 ^ k) (hk : den < 2 ^ (53 - k)) : ¬ RoundsUp num den := by
  intro hr
  have hmod := Nat.div_add_mod' num den
  have hlt := Nat.mod_lt num hd
  have hlog : (num / den).log2 ≤ k := by
    rcases Nat.eq_zero_or_pos (num / den) with hz | hq
    · simp [hz]
    · exact ((Nat.log2_lt hq.ne').mpr h).le
  have hgap : 0 < (num / den + 1) * den - num := by
    rw [Nat.succ_mul]
    omega
  have hle : 2 ^ (53 - k) ≤ 2 ^ (53 - (num / den).log2) := Nat.pow_le_pow_right Nat.two_pos (by omega)
  exact absurd hk (not_lt_of_ge (hle.trans ((Nat.le_mul_of_pos_right _ hgap).trans hr)))

/-- A quotient in units keeps its whole part, but for one more where it rounds up. -/
theorem nearestUnits_div_one (hd : 0 < den) (hd' : den < 2 ^ 53) (h : num < 2 ^ 52 * den) :
    nearestUnits (num * one) den / one = num / den + if RoundsUp num den then 1 else 0 := by
  obtain ⟨e, he⟩ := exists_one_eq (show 53 ≤ 1074 by decide)
  obtain ⟨hlow, hhigh⟩ := div_le_nearestUnits_div hd (show num < 2 ^ 53 * den by omega) (e + 53)
  have hr := lt_nearestUnits_div_iff hd hd' h e
  rw [he]
  by_cases hup : RoundsUp num den
  · have hlt := hr.mpr hup
    rw [if_pos hup]
    omega
  · have hle := mt hr.mp hup
    rw [if_neg hup]
    omega

theorem ofUnits_of_lt (h : nearestUnits num den < limit) :
    ofUnits negative num den = finite negative (nearestUnits num den) := if_pos h

theorem nearestUnits_mul_one_lt_limit (hd : 0 < den) (h : num < 2 ^ 53 * den) :
    nearestUnits (num * one) den < limit := by
  refine lt_of_lt_of_le ?_ le_limit
  obtain ⟨e, he⟩ := exists_one_eq (Nat.zero_le 1074)
  rw [Nat.add_zero] at he
  have hb := (div_le_nearestUnits_div hd h e).2
  have hq : num / den < 2 ^ 53 := (Nat.div_lt_iff_lt_mul hd).mpr h
  rw [he, ← Nat.div_lt_iff_lt_mul (Nat.two_pow_pos e)]
  omega

theorem ofQuotient_natCast (hd : 0 < den) (h : num < 2 ^ 53 * den) :
    ofQuotient num den = .finite false (nearestUnits (num * one) den) := by
  unfold ofQuotient ofRatio
  rw [Int.natAbs_natCast, decide_eq_false (by omega)]
  exact ofUnits_of_lt (nearestUnits_mul_one_lt_limit hd h)

theorem limit_eq : limit = 2 ^ (54 + (970 + 1074)) := by decide +kernel

/-- A whole number is out of range if it is rounded to 2^1024 or beyond. The exponent of one stays a variable,
so that no power of two is computed. -/
theorem limit_le_nearestUnits_iff (n : Nat) :
    limit ≤ nearestUnits (n * one) 1 ↔ 2 ^ 1024 ≤ n + 2 ^ 970 := by
  obtain ⟨k, hone, hlimit⟩ : ∃ k, one = 2 ^ k ∧ limit = 2 ^ (54 + (970 + k)) :=
    ⟨1074, one_eq, limit_eq⟩
  have hsum : 54 + (970 + k) = 1024 + k := by omega
  rewrite [hlimit, hone, two_pow_le_nearestUnits_iff, hsum, pow_add 2 1024, pow_add 2 970,
    ← Nat.add_mul, Nat.mul_le_mul_right_iff (Nat.two_pow_pos k)]
  exact Iff.rfl

theorem finite?_ofUnits_eq_none_iff :
    finite? (ofUnits negative num den) = none ↔ limit ≤ nearestUnits num den := by
  by_cases h : nearestUnits num den < limit
  · rw [ofUnits_of_lt h]
    exact ⟨nofun, fun hl => absurd h (Nat.not_lt_of_le hl)⟩
  · rw [ofUnits, if_neg h]
    exact ⟨fun _ => Nat.le_of_not_lt h, fun _ => rfl⟩

theorem ofInt?_eq_none_iff (n : Int) : ofInt? n = none ↔ 2 ^ 1024 ≤ n.natAbs + 2 ^ 970 := by
  rw [ofInt?, ofRatio, finite?_ofUnits_eq_none_iff]
  exact limit_le_nearestUnits_iff n.natAbs

theorem isNegative_ofUnits : (ofUnits negative num den).isNegative = negative := by
  unfold ofUnits
  split
  · rfl
  · rfl

theorem isNegative_ofQuotient (a : Int) (b : Nat) : (ofQuotient a b).isNegative = decide (a < 0) := by
  unfold ofQuotient ofRatio
  exact isNegative_ofUnits

theorem wholePart_of_isNegative {x : Binary64} (h : x.isNegative = true) : x.wholePart = 0 := by
  cases x with
  | nan | infinity => rfl
  | finite negative units =>
    cases negative with
    | true => rfl
    | false => cases h

end PhotoNaming.Binary64
