import PhotoNaming.Value.Basic
import Mathlib.Data.Char
import Mathlib.Data.List.Lex

/-! The order of values. It is strict, and of two values on one scale that are both ordered at all, one
comes before the other or they are the same. -/
namespace PhotoNaming

namespace Binary64.Position

variable {a b c : Position}

theorem not_before_self (a : Position) : ¬ a.Before a := by
  simp [Before]

theorem Before.trans (h : a.Before b) (h' : b.Before c) : a.Before c := by
  simp only [Before] at *
  omega

theorem before_cases (a b : Position) : a.Before b ∨ a = b ∨ b.Before a := by
  rcases a with ⟨la, ua⟩
  rcases b with ⟨lb, ub⟩
  simp only [Before, mk.injEq]
  omega

end Binary64.Position

namespace Number

variable {a b c : Number}

theorem before_iff : a.Before b ↔ ∃ p q, a.position? = some p ∧ b.position? = some q ∧ p.Before q := by
  rw [Before]
  cases a.position? <;> cases b.position? <;> simp

theorem same_iff : a.Same b ↔ ∃ p, a.position? = some p ∧ b.position? = some p := by
  rw [Same]
  cases a.position? <;> cases b.position? <;> simp [eq_comm]

theorem not_before_self (a : Number) : ¬ a.Before a := by
  rw [before_iff]
  rintro ⟨p, q, hp, hq, h⟩
  obtain rfl : p = q := Option.some.inj (hp.symm.trans hq)
  exact p.not_before_self h

theorem Before.trans (h : a.Before b) (h' : b.Before c) : a.Before c := by
  obtain ⟨p, q, hp, hq, h⟩ := before_iff.mp h
  obtain ⟨q', r, hq', hr, h'⟩ := before_iff.mp h'
  obtain rfl : q = q' := Option.some.inj (hq.symm.trans hq')
  exact before_iff.mpr ⟨p, r, hp, hr, h.trans h'⟩

theorem Before.trans_same (h : a.Before b) (hs : b.Same c) : a.Before c := by
  obtain ⟨p, q, hp, hq, h⟩ := before_iff.mp h
  obtain ⟨q', hq', hr⟩ := same_iff.mp hs
  obtain rfl : q = q' := Option.some.inj (hq.symm.trans hq')
  exact before_iff.mpr ⟨p, q, hp, hr, h⟩

theorem position?_eq_none : a.position? = none ↔ a = .binary .nan := by
  rcases a with n | x
  · simp [position?]
  · cases x <;> simp [position?, Binary64.position?]

theorem Before.ne_nan (h : a.Before b) : a ≠ .binary .nan ∧ b ≠ .binary .nan := by
  obtain ⟨p, q, hp, hq, _⟩ := before_iff.mp h
  constructor
  · rintro rfl
    cases hp
  · rintro rfl
    cases hq

theorem before_cases (ha : a ≠ .binary .nan) (hb : b ≠ .binary .nan) :
    a.Before b ∨ a.Same b ∨ b.Before a := by
  obtain ⟨p, hp⟩ := Option.ne_none_iff_exists'.mp (mt position?_eq_none.mp ha)
  obtain ⟨q, hq⟩ := Option.ne_none_iff_exists'.mp (mt position?_eq_none.mp hb)
  rw [before_iff, before_iff, same_iff]
  rcases p.before_cases q with h | rfl | h
  · exact .inl ⟨p, q, hp, hq, h⟩
  · exact .inr (.inl ⟨p, hp, hq⟩)
  · exact .inr (.inr ⟨q, p, hq, hp, h⟩)

end Number

namespace Timestamp

theorem parts_injective {a b : Timestamp} (h : a.parts = b.parts) : a = b := by
  cases a
  cases b
  simpa [parts] using h

end Timestamp

namespace Value

variable {a b c : Value}

/-- The one value that is in no order, not even with itself. -/
def notANumber : Value := .real (.binary .nan)

theorem Before.scale_eq (h : a.Before b) : a.scale = b.scale := by
  cases a <;> cases b <;> simp only [Before] at h <;> rfl

/-- Values on one scale are of one kind. -/
theorem kind_eq_of_scale_eq (h : a.scale = b.scale) : a.kind = b.kind := by
  cases a <;> cases b <;> simp only [scale, reduceCtorEq] at h <;> rfl

theorem not_before_self (a : Value) : ¬ a.Before a := by
  cases a with
  | text t => exact List.lt_irrefl t
  | integer n | long n => exact Int.lt_irrefl n
  | real x => exact x.not_before_self
  | timestamp t => exact List.lt_irrefl t.parts
  | moment m => exact Int.lt_irrefl m.instant
  | duration d => exact Int.lt_irrefl d.microseconds

theorem Before.trans (h : a.Before b) (h' : b.Before c) : a.Before c := by
  cases a <;> cases b <;> simp only [Before] at h <;> cases c <;> simp only [Before] at h' ⊢
  · exact List.lt_trans h h'
  · exact Int.lt_trans h h'
  · exact Int.lt_trans h h'
  · exact Number.Before.trans h h'
  · exact List.lt_trans h h'
  · exact Int.lt_trans h h'
  · exact Int.lt_trans h h'

theorem Before.trans_same (h : a.Before b) (hs : b.Same c) : a.Before c := by
  cases b with
  | real x =>
    cases c with
    | real y =>
      cases a with
      | real z => exact Number.Before.trans_same h hs
      | _ => exact h.elim
    | _ => cases hs
  | moment m =>
    cases c with
    | moment n =>
      cases a with
      | moment l => exact (show l.instant < m.instant from h).trans_eq hs
      | _ => exact h.elim
    | _ => cases hs
  | _ => exact (show _ = c from hs) ▸ h

theorem Same.symm (h : a.Same b) : b.Same a := by
  cases a with
  | real x =>
    cases b with
    | real y =>
      obtain ⟨p, hx, hy⟩ := Number.same_iff.mp h
      exact Number.same_iff.mpr ⟨p, hy, hx⟩
    | _ => cases h
  | moment m =>
    cases b with
    | moment n => exact Eq.symm (show m.instant = n.instant from h)
    | _ => cases h
  | _ => exact (show _ = b from h) ▸ rfl

/-- What is in no order neither comes before anything nor behind it. -/
theorem Before.ne_notANumber (h : a.Before b) : a ≠ notANumber ∧ b ≠ notANumber := by
  cases a <;> cases b <;> simp only [Before] at h <;>
    simp only [notANumber, ne_eq, reduceCtorEq, not_false_eq_true, and_self, real.injEq]
  exact Number.Before.ne_nan h

theorem not_notANumber_same (a : Value) : ¬ notANumber.Same a := by
  intro h
  cases a with
  | real x =>
    obtain ⟨p, hp, _⟩ := Number.same_iff.mp (show (Number.binary .nan).Same x from h)
    cases hp
  | _ => cases h

theorem Same.ne_notANumber (h : a.Same b) : a ≠ notANumber ∧ b ≠ notANumber := by
  constructor
  · rintro rfl
    exact not_notANumber_same b h
  · rintro rfl
    exact not_notANumber_same a h.symm

/-- Every value but that one is the same as itself. -/
theorem same_self (h : a ≠ notANumber) : a.Same a := by
  cases a with
  | real x =>
    obtain ⟨p, hp⟩ := Option.ne_none_iff_exists'.mp
      (mt Number.position?_eq_none.mp fun hx => h (congrArg real hx))
    exact Number.same_iff.mpr ⟨p, hp, hp⟩
  | _ => rfl

/-- Whether two values are the same or both the one that is in no order. -/
def Alike (a b : Value) : Prop := a.Same b ∨ (a = notANumber ∧ b = notANumber)

theorem alike_refl (a : Value) : a.Alike a := by
  by_cases h : a = notANumber
  · exact .inr ⟨h, h⟩
  · exact .inl (same_self h)

theorem Alike.eq_notANumber_iff (h : a.Alike b) : a = notANumber ↔ b = notANumber := by
  rcases h with h | ⟨ha, hb⟩
  · simp [h.ne_notANumber]
  · simp [ha, hb]

theorem before_cases (hk : a.scale = b.scale) (ha : a ≠ notANumber) (hb : b ≠ notANumber) :
    a.Before b ∨ a.Same b ∨ b.Before a := by
  cases a <;> cases b <;> simp only [scale, reduceCtorEq] at hk <;>
    simp only [Before, Same, text.injEq, integer.injEq, long.injEq, timestamp.injEq, duration.injEq]
  · rename_i s t
    exact lt_trichotomy (s : List Char) t
  · exact Int.lt_trichotomy _ _
  · exact Int.lt_trichotomy _ _
  · exact Number.before_cases (fun h => ha (congrArg real h)) fun h => hb (congrArg real h)
  · rename_i s t
    rcases lt_trichotomy s.parts t.parts with h | h | h
    · exact .inl h
    · exact .inr (.inl (Timestamp.parts_injective h))
    · exact .inr (.inr h)
  · exact Int.lt_trichotomy _ _
  · rename_i d e
    rw [Duration.mk.injEq]
    exact Int.lt_trichotomy _ _

theorem compare_of_kind_ne (hk : a.kind ≠ b.kind) (r : Relation) : compare r a b = .error (.kinds r) :=
  if_pos hk

theorem compare_of_scale_ne (hk : a.kind = b.kind) (hs : a.scale ≠ b.scale) (r : Relation) :
    compare r a b = .error .offsets := by
  rw [compare.eq_def, if_neg (not_not_intro hk), if_pos hs]

/-- Values on different scales are of different kinds, or timestamps of which one has an offset. -/
theorem scale_ne_iff : a.scale ≠ b.scale ↔
    a.kind ≠ b.kind ∨ ∃ t m, a = timestamp t ∧ b = moment m ∨ a = moment m ∧ b = timestamp t := by
  cases a <;> cases b <;> simp [scale, kind]

theorem scale_eq_of_compare {r : Relation} {answer : Bool} (h : compare r a b = .ok answer) :
    a.scale = b.scale := by
  rw [compare.eq_def] at h
  split at h
  · cases h
  · split at h
    · cases h
    · rename_i hs
      exact not_not.mp hs

theorem compare_less_of_scale_eq (hs : a.scale = b.scale) :
    compare .less a b = .ok (decide (a.Before b)) := by
  rw [compare, if_neg (not_not_intro (kind_eq_of_scale_eq hs)), if_neg (not_not_intro hs)]

theorem not_same_of_scale_ne (hs : a.scale ≠ b.scale) : ¬ a.Same b := by
  intro h
  cases a with
  | real x =>
    cases b with
    | real y => exact hs rfl
    | _ => cases h
  | moment m =>
    cases b with
    | moment n => exact hs rfl
    | _ => cases h
  | _ => exact hs (congrArg scale (show _ = b from h))

theorem supersedes_of_kind_eq (hk : a.kind = b.kind) : a.supersedes b = compare .less b a := if_pos hk

theorem supersedes_of_kind_ne (hk : a.kind ≠ b.kind) : a.supersedes b = .ok false := if_neg hk

end Value

end PhotoNaming
