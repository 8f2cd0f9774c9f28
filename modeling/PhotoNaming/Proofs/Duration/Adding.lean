import PhotoNaming.Duration.Basic
import PhotoNaming.Proofs.Outcome
import Mathlib.Data.List.Infix

/-! Sums of lengths of time, added one by one. The sum does not depend on the order, but whether a sum on the
way is out of range does. -/
namespace PhotoNaming.Duration

/-- Whether a length of time can have `n` microseconds. -/
def Fits (n : Int) : Prop := -86399999913600000000 ≤ n ∧ n ≤ 86399999999999999999

instance (n : Int) : Decidable (Fits n) := inferInstanceAs (Decidable (_ ∧ _))

/-- The microseconds of all parts together. -/
def total (parts : List Duration) : Int := parts.foldr (fun part n => part.microseconds + n) 0

/-- Whether all sums stay in range when the parts are added to `n` microseconds one by one. -/
def SumsFit (n : Int) (parts : List Duration) : Prop := ∀ front ∈ parts.inits, Fits (n + total front)

instance (n : Int) (parts : List Duration) : Decidable (SumsFit n parts) :=
  inferInstanceAs (Decidable (∀ front ∈ parts.inits, _))

variable {d part : Duration} {parts : List Duration} {n : Int}

theorem fits (d : Duration) : Fits d.microseconds := ⟨d.lower, d.upper⟩

theorem ofMicroseconds_eq_ok (h : Fits n) : ofMicroseconds n = .ok ⟨n, h.1, h.2⟩ := dif_pos h

theorem eq_of_microseconds {d e : Duration} (h : d.microseconds = e.microseconds) : d = e := by
  cases d
  cases e
  cases h
  rfl

theorem total_cons : total (part :: parts) = part.microseconds + total parts := rfl

theorem total_append {more : List Duration} : total (parts ++ more) = total parts + total more := by
  induction parts with
  | nil => exact (Int.zero_add _).symm
  | cons part parts ih => rw [List.cons_append, total_cons, ih, total_cons, Int.add_assoc]

theorem total_eq_of_perm {other : List Duration} (h : parts.Perm other) : total parts = total other := by
  induction h with
  | nil => rfl
  | cons part _ ih => rw [total_cons, ih, total_cons]
  | swap => exact Int.add_left_comm _ _ _
  | trans _ _ ih₁ ih₂ => exact ih₁.trans ih₂

theorem sumsFit_nil : SumsFit n [] ↔ Fits n := by
  simp [SumsFit, total]

theorem sumsFit_cons : SumsFit n (part :: parts) ↔ Fits n ∧ SumsFit (n + part.microseconds) parts := by
  simp [SumsFit, total, Int.add_assoc]

theorem SumsFit.fits (h : SumsFit n parts) : Fits n := by
  cases parts with
  | nil => exact sumsFit_nil.mp h
  | cons part parts => exact (sumsFit_cons.mp h).1

theorem add_of_fits (h : Fits (d.microseconds + part.microseconds)) :
    ∃ sum, d.add part = .ok sum ∧ sum.microseconds = d.microseconds + part.microseconds :=
  ⟨⟨_, h.1, h.2⟩, ofMicroseconds_eq_ok h, rfl⟩

/-- The days of a sum out of range still fit into a machine word. -/
theorem add_of_not_fits (h : ¬ Fits (d.microseconds + part.microseconds)) :
    ∃ days, d.add part = .error (.days days) := by
  have hword : Word.Fits 31 ((d.microseconds + part.microseconds).fdiv (day : Nat)) := by
    have hd := d.fits
    have hpart := part.fits
    have hbound : Word.bound 31 = 2147483648 := rfl
    rw [Int.fdiv_eq_ediv_of_nonneg _ (Int.natCast_nonneg day), show (day : Int) = 86400000000 from rfl]
    simp only [Fits, Word.Fits, hbound] at *
    omega
  exact ⟨_, (dif_neg h).trans (if_pos hword)⟩

/-- As long as the sums stay in range, the parts are added up. -/
theorem foldlM_add_of_sumsFit (h : SumsFit d.microseconds parts) :
    ∃ sum, parts.foldlM add d = .ok sum ∧ sum.microseconds = d.microseconds + total parts := by
  induction parts generalizing d with
  | nil => exact ⟨d, rfl, (Int.add_zero _).symm⟩
  | cons part parts ih =>
    have hrest := (sumsFit_cons.mp h).2
    obtain ⟨next, hnext, hn⟩ := add_of_fits hrest.fits
    rw [← hn] at hrest
    obtain ⟨sum, hsum, hs⟩ := ih hrest
    refine ⟨sum, ?_, by rw [hs, hn, total_cons, Int.add_assoc]⟩
    rw [List.foldlM_cons, hnext, ok_bind, hsum]

/-- The first sum out of range ends the adding, whatever would follow. -/
theorem foldlM_add_of_not_sumsFit (h : ¬ SumsFit d.microseconds parts) :
    ∃ days, parts.foldlM add d = .error (.days days) := by
  induction parts generalizing d with
  | nil => exact absurd (sumsFit_nil.mpr d.fits) h
  | cons part parts ih =>
    rw [List.foldlM_cons]
    by_cases hf : Fits (d.microseconds + part.microseconds)
    · obtain ⟨next, hnext, hn⟩ := add_of_fits hf
      rw [hnext, ok_bind]
      refine ih fun hs => h (sumsFit_cons.mpr ⟨d.fits, ?_⟩)
      rwa [← hn]
    · obtain ⟨days, hdays⟩ := add_of_not_fits hf
      exact ⟨days, by rw [hdays, error_bind]⟩

end PhotoNaming.Duration
