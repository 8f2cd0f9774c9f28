import PhotoNaming.Text.Basic

/-! Taking texts apart again: decimal digits give their number back, and the last separator of a text
gives back what stands on its two sides. -/
namespace PhotoNaming.Text

theorem isDigit_of_mem_ofNat {n : Nat} {c : Char} (h : c ∈ ofNat n) : c.isDigit :=
  Nat.isDigit_of_mem_toDigits (by decide) (by decide) h

theorem ofNat_injective {m n : Nat} (h : ofNat m = ofNat n) : m = n := by
  have hn := congrArg (fun digits => Nat.ofDigitChars 10 digits 0) h
  simpa only [ofNat, Nat.ofDigitChars_ten_toDigits] using hn

theorem isDigit_of_mem_zeroPadded {width n : Nat} {c : Char} (h : c ∈ zeroPadded width n) :
    c.isDigit := by
  rw [zeroPadded, List.leftpad] at h
  rcases List.mem_append.mp h with h | h
  · rw [List.eq_of_mem_replicate h]
    decide
  · exact isDigit_of_mem_ofNat h

/-- A separator that does not come again behind itself is found again. -/
theorem append_cons_inj {α : Type} {c : α} {a b a' b' : List α} (hb : c ∉ b) (hb' : c ∉ b')
    (h : a ++ c :: b = a' ++ c :: b') : a = a' ∧ b = b' := by
  rcases List.append_eq_append_iff.mp h with ⟨x, ha, hx⟩ | ⟨x, ha, hx⟩
  · cases x with
    | nil => exact ⟨by simpa using ha.symm, by simpa using hx⟩
    | cons y ys =>
      have hy := (List.cons.inj hx).2
      exact absurd (by rw [hy]; simp) hb
  · cases x with
    | nil => exact ⟨by simpa using ha, by simpa using hx.symm⟩
    | cons y ys =>
      have hy := (List.cons.inj hx).2
      exact absurd (by rw [hy]; simp) hb'

/-- Digits end where something else begins. -/
theorem digits_append_inj {a b a' b' : Text} (ha : ∀ c ∈ a, c.isDigit) (ha' : ∀ c ∈ a', c.isDigit)
    (hb : ∀ c ∈ b.head?, c.isDigit = false) (hb' : ∀ c ∈ b'.head?, c.isDigit = false)
    (h : a ++ b = a' ++ b') : a = a' ∧ b = b' := by
  have front {x y : Text} (hx : ∀ c ∈ x, c.isDigit) (hy : ∀ c ∈ y.head?, c.isDigit = false) :
      (x ++ y).takeWhile Char.isDigit = x := by
    rw [List.takeWhile_append_of_pos hx]
    cases y with
    | nil => simp
    | cons c y => simp [hy c (by simp)]
  have he : a = a' := by rw [← front ha hb, h, front ha' hb']
  subst he
  exact ⟨rfl, List.append_cancel_left h⟩

end PhotoNaming.Text
