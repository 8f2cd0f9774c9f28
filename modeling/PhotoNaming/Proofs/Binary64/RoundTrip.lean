import PhotoNaming.Binary64.Shortest
import PhotoNaming.Proofs.Binary64.Held
import PhotoNaming.Proofs.Text.Numeral

/-! Numbers that are written out are read back as the same numbers. The digits that are written are found by
trial; what carries the argument is that each layout of digits is read as these digits times the power of ten
that their places stand for. -/
namespace PhotoNaming

namespace Text

variable {n : Nat}

theorem ofNat_mul_ten (h : 0 < n) : ofNat (n * 10) = ofNat n ++ ['0'] := by
  rw [ofNat, Nat.toDigits_of_base_le (by decide) (by omega), Nat.mul_div_cancel n (by decide),
    Nat.mul_mod_left]
  rfl

theorem ofNat_mul_pow (h : 0 < n) (k : Nat) : ofNat (n * 10 ^ k) = ofNat n ++ List.replicate k '0' := by
  induction k with
  | zero => simp
  | succ k ih =>
    rw [Nat.pow_succ, ← Nat.mul_assoc, ofNat_mul_ten (Nat.mul_pos h (Nat.pow_pos (by decide))), ih,
      List.append_assoc, ← List.replicate_succ']

/-- The digits of a number without the zeros at their end are those of another number. -/
theorem exists_ofNat_stripped (h : 0 < n) :
    ∃ m k, 0 < m ∧ n = m * 10 ^ k ∧ ((ofNat n).reverse.dropWhile (· = '0')).reverse = ofNat m := by
  induction n using Nat.strongRecOn with
  | ind n ih =>
    by_cases hz : n % 10 = 0
    · obtain ⟨n, rfl⟩ := Nat.dvd_of_mod_eq_zero hz
      obtain ⟨m, k, hm, hn, hs⟩ := ih n (by omega) (by omega)
      refine ⟨m, k + 1, hm, by rw [Nat.pow_succ, ← Nat.mul_assoc, ← hn, Nat.mul_comm], ?_⟩
      rw [Nat.mul_comm, ofNat_mul_ten (by omega), List.reverse_append, List.reverse_singleton,
        List.singleton_append, List.dropWhile_cons_of_pos (by decide), hs]
    · refine ⟨n, 0, h, by simp, ?_⟩
      have hlast : ∃ front, ofNat n = front ++ [Nat.digitChar (n % 10)] := by
        rcases Nat.lt_or_ge n 10 with hlt | hge
        · exact ⟨[], by rw [ofNat, Nat.toDigits_of_lt_base hlt, Nat.mod_eq_of_lt hlt]; rfl⟩
        · exact ⟨_, Nat.toDigits_of_base_le (by decide) hge⟩
      obtain ⟨front, hf⟩ := hlast
      rw [hf, List.reverse_append, List.reverse_singleton, List.singleton_append,
        List.dropWhile_cons_of_neg (by simpa using hz), List.reverse_cons, List.reverse_reverse]

/-- The characters that numerals are written with. -/
def IsNumeral (t : Text) : Prop := ∀ c ∈ t, c.isDigit ∨ c ∈ ['.', 'e', '+', '-']

theorem withPlainDigits_of_isNumeral {t : Text} (h : IsNumeral t) : withPlainDigits t = t := by
  induction t with
  | nil => rfl
  | cons c t ih =>
    obtain ⟨hc, ht⟩ := List.forall_mem_cons.mp h
    have hone : withPlainDigits [c] = [c] := by
      rcases hc with hc | hc
      · exact withPlainDigits_of_digits (by simpa using hc)
      · have hmark : ∀ c ∈ ['.', 'e', '+', '-'], withPlainDigits [c] = [c] := by
          simp only [List.forall_mem_cons, List.not_mem_nil, false_implies, implies_true]
          decide
        exact hmark c hc
    rw [← List.singleton_append, withPlainDigits, List.map_append]
    exact congr (congrArg _ hone) (ih ht)

/-- Nothing has to be taken out of a numeral before it is read. -/
theorem clean_of_isNumeral {t : Text} (h : IsNumeral t) :
    withoutGroupMarks? (trimmed isWhite (withPlainDigits t)) = some t := by
  have hmark : ∀ c ∈ ['.', 'e', '+', '-'], isWhite c = false ∧ c ≠ '_' := by
    simp only [List.forall_mem_cons, List.not_mem_nil, false_implies, implies_true]
    decide
  rw [withPlainDigits_of_isNumeral h, trimmed_of_forall fun c hc =>
    (h c hc).elim isWhite_of_isDigit fun hm => (hmark c hm).1]
  refine withoutGroupMarks?_of_notMem fun hm => ?_
  rcases h _ hm with hd | hc
  · cases hd
  · exact (hmark _ hc).2 rfl

end Text

namespace Binary64

variable {negative : Bool} {n units : Nat} {e : Int} {whole point fraction power : Text}

theorem isNumeral_of_isFraction (h : IsFraction point fraction) : Text.IsNumeral point := by
  cases h with
  | absent => nofun
  | digits hd => exact List.forall_mem_cons.mpr ⟨.inr (by decide), fun c hc => .inl (hd c hc)⟩

theorem isNumeral_of_isPower (h : IsPower power e) : Text.IsNumeral power := by
  cases h with
  | absent => nofun
  | plus hne hd | minus hne hd =>
    exact List.forall_mem_cons.mpr ⟨.inr (by decide), List.forall_mem_cons.mpr
      ⟨.inr (by decide), fun c hc => .inl (hd c hc)⟩⟩

theorem ofText?_numeral (hw : ∀ c ∈ whole, c.isDigit) (hne : whole ≠ []) (hf : IsFraction point fraction)
    (hp : IsPower power e) :
    ofText? (whole ++ (point ++ power)) =
      some (ofDecimal false (Text.digitsValue (whole ++ fraction)) (e - fraction.length)) := by
  refine ofText?_of_isFraction (Text.clean_of_isNumeral ?_) hw hne hf hp
  exact List.forall_mem_append.mpr ⟨fun c hc => .inl (hw c hc),
    List.forall_mem_append.mpr ⟨isNumeral_of_isFraction hf, isNumeral_of_isPower hp⟩⟩

/-- In range, a numeral stands for the number nearest to a fraction of powers of ten. -/
theorem ofDecimal_eq (hn : n ≠ 0) (hlow : -400 ≤ (Text.ofNat n).length + e)
    (hhigh : (Text.ofNat n).length + e ≤ 400) :
    ofDecimal negative n e = ofRatio negative (n * 10 ^ e.toNat) (10 ^ (-e).toNat) := by
  unfold ofDecimal
  rw [if_neg hn, if_neg (by omega), if_neg (by omega)]
  cases e with
  | ofNat k => simp
  | negSucc k => simp

/-- Zeros at the end of the digits are as good as a greater power of ten. -/
theorem ofDecimal_mul_pow (negative : Bool) (n k : Nat) (e : Int) :
    ofDecimal negative (n * 10 ^ k) (e - k) = ofDecimal negative n e := by
  rcases Nat.eq_zero_or_pos n with rfl | hn
  · simp [ofDecimal]
  · have hpos : 0 < n * 10 ^ k := Nat.mul_pos hn (Nat.pow_pos (by decide))
    have hlen : ((Text.ofNat (n * 10 ^ k)).length + (e - k) : Int) = (Text.ofNat n).length + e := by
      rw [Text.ofNat_mul_pow hn, List.length_append, List.length_replicate]
      omega
    by_cases hhigh : (Text.ofNat n).length + e ≤ 400
    · by_cases hlow : -400 ≤ (Text.ofNat n).length + e
      · rw [ofDecimal_eq hpos.ne' (by omega) (by omega), ofDecimal_eq hn.ne' hlow hhigh]
        refine ofRatio_eq_of_cross (Nat.pow_pos (by decide)) (Nat.pow_pos (by decide)) ?_
        rw [Nat.mul_assoc n, Nat.mul_assoc n, Nat.mul_assoc n, ← Nat.pow_add, ← Nat.pow_add, ← Nat.pow_add]
        congr 2
        omega
      · simp only [ofDecimal, hlen, if_neg hn.ne', if_neg hpos.ne', if_neg (not_lt_of_ge hhigh),
          if_pos (lt_of_not_ge hlow)]
    · simp only [ofDecimal, hlen, if_neg hn.ne', if_neg hpos.ne', if_pos (lt_of_not_ge hhigh)]

theorem isPower_zeroPadded (e : Int) :
    IsPower ('e' :: (if e < 0 then '-' else '+') :: Text.zeroPadded 2 e.natAbs) e := by
  have hd : ∀ c ∈ Text.zeroPadded 2 e.natAbs, c.isDigit := fun _ hc => Text.isDigit_of_mem_zeroPadded hc
  have hne : Text.zeroPadded 2 e.natAbs ≠ [] := by
    rw [← List.length_pos_iff, Text.zeroPadded, List.length_leftpad]
    omega
  have hv := Text.digitsValue_zeroPadded 2 e.natAbs
  by_cases h : e < 0
  · have hp := IsPower.minus hne hd
    rw [hv, show -(e.natAbs : Int) = e by omega] at hp
    rwa [if_pos h]
  · have hp := IsPower.plus hne hd
    rw [hv, show (e.natAbs : Int) = e by omega] at hp
    rwa [if_neg h]

theorem ofText?_point (whole fraction : Text) (hw : ∀ c ∈ whole, c.isDigit) (hne : whole ≠ [])
    (hf : ∀ c ∈ fraction, c.isDigit) :
    ofText? (whole ++ '.' :: fraction) =
      some (ofDecimal false (Text.digitsValue (whole ++ fraction)) (0 - fraction.length)) := by
  have h := ofText?_numeral hw hne (.digits hf) .absent
  rwa [List.append_nil] at h

theorem isDigit_of_mem_ofNat_append {k : Nat} {c : Char} (h : c ∈ Text.ofNat n ++ List.replicate k '0') :
    c.isDigit := by
  rcases List.mem_append.mp h with h | h
  · exact Text.isDigit_of_mem_ofNat h
  · rw [List.eq_of_mem_replicate h]
    rfl

theorem ofNat_ne_nil (n : Nat) : Text.ofNat n ≠ [] := List.ne_nil_of_length_pos Nat.length_toDigits_pos

theorem digitsValue_append_zeros (k : Nat) :
    Text.digitsValue (Text.ofNat n ++ List.replicate k '0') = n * 10 ^ k := by
  rw [Text.digitsValue, Nat.ofDigitChars_append, Nat.ofDigitChars_replicate_zero, Nat.mul_comm]
  exact congrArg (· * 10 ^ k) (Text.digitsValue_ofNat n)

theorem digitsValue_zeros_append (k : Nat) :
    Text.digitsValue (List.replicate k '0' ++ Text.ofNat n) = n := by
  rw [Text.digitsValue, Nat.ofDigitChars_append, Nat.ofDigitChars_replicate_zero, Nat.mul_zero]
  exact Text.digitsValue_ofNat n

/-- Digits behind a point and zeros. -/
theorem ofText?_small (n k : Nat) :
    ofText? (['0', '.'] ++ List.replicate k '0' ++ Text.ofNat n) =
      some (ofDecimal false n (0 - (k + (Text.ofNat n).length))) := by
  have hf : ∀ c ∈ List.replicate k '0' ++ Text.ofNat n, c.isDigit := fun c hc =>
    isDigit_of_mem_ofNat_append (List.mem_append.mpr (List.mem_append.mp hc).symm)
  have h := ofText?_point ['0'] _ (by simp) (by simp) hf
  have hv : ['0'] ++ (List.replicate k '0' ++ Text.ofNat n) = List.replicate (k + 1) '0' ++ Text.ofNat n := rfl
  rw [hv, digitsValue_zeros_append, List.length_append, List.length_replicate, Nat.cast_add] at h
  rw [List.append_assoc]
  exact h

/-- Digits that are filled up with zeros to a whole number. -/
theorem ofText?_padded (n k : Nat) :
    ofText? (Text.ofNat n ++ List.replicate k '0' ++ ['.', '0']) = some (ofDecimal false n k) := by
  have h := ofText?_point (Text.ofNat n ++ List.replicate k '0') ['0']
    (fun c hc => isDigit_of_mem_ofNat_append hc) (by simp [ofNat_ne_nil]) (by simp)
  rw [h, List.append_assoc, ← List.replicate_succ', digitsValue_append_zeros, ← ofDecimal_mul_pow false n (k + 1) k]
  congr 2
  simp

/-- Digits with a point among them. -/
theorem ofText?_cut (n : Nat) {k : Nat} (hk : 0 < k) (hl : k < (Text.ofNat n).length) :
    ofText? ((Text.ofNat n).take k ++ '.' :: (Text.ofNat n).drop k) =
      some (ofDecimal false n (k - (Text.ofNat n).length)) := by
  have h := ofText?_point ((Text.ofNat n).take k) ((Text.ofNat n).drop k)
    (fun c hc => Text.isDigit_of_mem_ofNat (List.mem_of_mem_take hc))
    (by simp [ofNat_ne_nil, hk.ne'])
    (fun c hc => Text.isDigit_of_mem_ofNat (List.mem_of_mem_drop hc))
  rw [List.take_append_drop, Text.digitsValue_ofNat, List.length_drop] at h
  rw [h]
  congr 2
  omega

/-- Digits with a point behind the first one, if there are more, and a power of ten. -/
theorem ofText?_scientific (n : Nat) {leading : Int} (h : leading < positionalFrom ∨ positionalTo ≤ leading) :
    ofText? (layout (Text.ofNat n) leading) =
      some (ofDecimal false n (leading - ((Text.ofNat n).length - 1))) := by
  have hdigits : ∀ c ∈ Text.ofNat n, c.isDigit := fun _ hc => Text.isDigit_of_mem_ofNat hc
  have hvalue := Text.digitsValue_ofNat n
  obtain ⟨d, rest, hd⟩ := List.exists_cons_of_ne_nil (ofNat_ne_nil n)
  rw [hd] at hdigits hvalue ⊢
  rw [List.forall_mem_cons] at hdigits
  have hf : IsFraction (if rest = [] then [] else '.' :: rest) rest := by
    split
    · rename_i hr
      exact hr ▸ .absent
    · exact .digits hdigits.2
  rw [layout_of_scientific h, ofText?_numeral (by simpa using hdigits.1) (by simp) hf
    (isPower_zeroPadded leading), List.singleton_append, hvalue, List.length_cons]
  congr 2
  omega

/-- However digits are laid out, they are read with the power of ten that their first place stands for. -/
theorem ofText?_layout (n : Nat) (e : Int) :
    ofText? (layout (Text.ofNat n) ((Text.ofNat n).length - 1 + e)) = some (ofDecimal false n e) := by
  have hlen : 0 < (Text.ofNat n).length := List.length_pos_iff.mpr (ofNat_ne_nil n)
  generalize hl : ((Text.ofNat n).length - 1 + e : Int) = leading
  by_cases hs : leading < positionalFrom ∨ positionalTo ≤ leading
  · rw [ofText?_scientific n hs]
    congr 2
    omega
  · unfold layout
    rw [if_neg hs]
    by_cases hsmall : leading < 0
    · rw [if_pos hsmall, ofText?_small]
      congr 2
      omega
    · rw [if_neg hsmall]
      by_cases hpad : (Text.ofNat n).length ≤ leading.toNat + 1
      · simp only [if_pos hpad, List.rightpad]
        rw [ofText?_padded]
        congr 2
        omega
      · simp only [if_neg hpad]
        rw [ofText?_cut n (Nat.succ_pos _) (by omega)]
        congr 2
        omega

namespace Numeral

theorem readsBack_iff {m : Numeral} :
    readsBack units m ↔ ofDecimal false m.digits m.exponent = finite false units := by
  rw [readsBack, beq_iff_eq]

theorem digits_exact : (exact units).digits = units * Nat.pow 5 1074 := rfl

/-- All digits of a number in range come to a power of ten that is not far outside the range. The powers are
bounded by evaluation and are variables from there on. -/
theorem length_exact (h0 : 0 < units) (h : units < limit) :
    674 < (Text.ofNat (exact units).digits).length ∧ (Text.ofNat (exact units).digits).length ≤ 1474 := by
  obtain ⟨low, hlow, hfive⟩ : ∃ low, low = 674 ∧ 10 ^ low ≤ Nat.pow 5 1074 := ⟨674, rfl, by decide +kernel⟩
  obtain ⟨high, hhigh, hlimit⟩ : ∃ high, high = 1474 ∧ limit * Nat.pow 5 1074 ≤ 10 ^ high :=
    ⟨1474, rfl, by decide +kernel⟩
  rw [digits_exact, ← hlow, ← hhigh]
  generalize Nat.pow 5 1074 = five at hfive hlimit
  have hpos : 0 < five := lt_of_lt_of_le (Nat.pow_pos (by decide)) hfive
  constructor
  · rw [← Nat.not_le, Text.ofNat, Nat.length_toDigits_le_iff (by decide) (by omega), Nat.not_lt]
    exact hfive.trans (Nat.le_mul_of_pos_left _ h0)
  · rw [Text.ofNat, Nat.length_toDigits_le_iff (by decide) (by omega)]
    exact (Nat.mul_lt_mul_of_pos_right h hpos).trans_le hlimit

theorem readsBack_exact (h0 : 0 < units) (h : IsHeld units) : readsBack units (exact units) := by
  obtain ⟨hlow, hhigh⟩ := length_exact h0 h.lt
  have hne : (exact units).digits ≠ 0 := fun hz => by
    rw [hz] at hlow
    exact absurd hlow (by decide)
  have hexp : (exact units).exponent = -(1074 : Nat) := rfl
  rw [readsBack_iff, ofDecimal_eq hne (by omega) (by omega), hexp, digits_exact, ← ofRatio_one h]
  refine ofRatio_eq_of_cross (Nat.pow_pos (by decide)) one_pos ?_
  rw [neg_neg, Int.toNat_neg_natCast, Int.toNat_natCast, one_eq]
  generalize 1074 = k
  rw [Nat.pow_zero, Nat.mul_one, Nat.mul_assoc, Nat.pow_eq, ← Nat.mul_pow]

theorem readsBack_shortest (h0 : 0 < units) (h : IsHeld units) : readsBack units (shortest units) := by
  rw [shortest]
  cases hf : ((List.range 17).flatMap fun (behind : Nat) =>
      neighbours units (leadingExponent units - behind)).find? (readsBack units) with
  | none => exact readsBack_exact h0 h
  | some m => exact List.find?_some hf

end Numeral

/-- A number that is written out is read back as itself. -/
theorem ofText?_text (h0 : 0 < units) (h : IsHeld units) :
    ofText? (finite false units).text = some (finite false units) := by
  have hread := Numeral.readsBack_iff.mp (Numeral.readsBack_shortest h0 h)
  rw [text_finite h0.ne']
  generalize Numeral.shortest units = m at hread ⊢
  have hpos : 0 < m.digits := by
    refine Nat.pos_of_ne_zero fun hz => h0.ne ?_
    simpa [ofDecimal, hz] using hread
  obtain ⟨n, k, hn, hd, hs⟩ := Text.exists_ofNat_stripped hpos
  have hlen : ((Text.ofNat m.digits).length - 1 + m.exponent : Int) =
      (Text.ofNat n).length - 1 + (m.exponent + k) := by
    rw [hd, Text.ofNat_mul_pow hn, List.length_append, List.length_replicate]
    omega
  rw [hs, hlen, ofText?_layout, ← ofDecimal_mul_pow false n k, ← hd, Int.add_sub_cancel, hread]

theorem ofText?_ofNat (n : Nat) : ofText? (Text.ofNat n) = some (ofDecimal false n 0) := by
  have hdigits : ∀ c ∈ Text.ofNat n, c.isDigit := fun _ hc => Text.isDigit_of_mem_ofNat hc
  have h := ofText?_numeral hdigits (ofNat_ne_nil n) .absent .absent
  rwa [List.append_nil, List.append_nil, Text.digitsValue_ofNat] at h

/-- The digits of an integer in range, without a power of ten. -/
theorem ofDecimal_of_isHeld (h : IsHeld (n * one)) : ofDecimal false n 0 = finite false (n * one) := by
  rcases Nat.eq_zero_or_pos n with rfl | hn
  · simp [ofDecimal]
  · have hlen : (Text.ofNat n).length ≤ 400 := by
      obtain ⟨k, hk, hlimit⟩ : ∃ k, k = 400 ∧ limit ≤ 10 ^ k * one := ⟨400, rfl, by decide +kernel⟩
      rw [← hk, Text.ofNat, Nat.length_toDigits_le_iff (by decide) (by omega)]
      exact Nat.lt_of_mul_lt_mul_right (h.lt.trans_le hlimit)
    rw [ofDecimal_eq hn.ne' (by omega) (by omega), ofRatio]
    simpa using ofUnits_of_isHeld h

/-- So is one that is written as an integer where it has no fraction. -/
theorem ofText?_numberText (h : IsHeld units) :
    ofText? (finite false units).numberText = some (finite false units) := by
  by_cases hint : units % one = 0
  · have hn : toInt? (finite false units) = some ((units / one : Nat) : Int) := by
      simp only [toInt?, hint, if_true, Bool.false_eq_true, if_false]
    rw [numberText, hn]
    refine (ofText?_ofNat (units / one)).trans (congrArg some ?_)
    have hunits := Nat.div_mul_cancel (Nat.dvd_of_mod_eq_zero hint)
    rw [← hunits] at h
    rw [ofDecimal_of_isHeld h, hunits]
  · have hn : toInt? (finite false units) = none := by simp only [toInt?, hint, if_false]
    rw [numberText, hn]
    exact ofText?_text (Nat.pos_of_ne_zero fun hz => hint (by rw [hz]; exact Nat.zero_mod one)) h

end Binary64

end PhotoNaming
