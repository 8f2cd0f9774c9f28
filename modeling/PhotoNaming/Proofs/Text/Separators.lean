import PhotoNaming.Text.Lowercase
import Mathlib.Data.List.Infix

/-! Texts with separators in them. A word that does not hold a separator never reaches over one, so that words
are replaced in the parts of a joined text each on its own. -/
namespace PhotoNaming.Text

variable {old new : Text} {separator : Char}

/-- Small letters of plain characters depend on nothing around them. -/
theorem loweredBehind_of_ascii {t : Text} (h : ∀ c ∈ t, c.toNat < 0x80) (before : Text) :
    loweredBehind before t = t.map Char.toLower := by
  induction t generalizing before with
  | nil => rfl
  | cons c t ih =>
    rw [List.forall_mem_cons] at h
    have hs : c ≠ 'Σ' := by
      rintro rfl
      exact absurd h.1 (by decide)
    rw [loweredBehind, if_neg hs, lowerForm, if_pos h.1, ih h.2]
    rfl

theorem lowered_of_ascii {t : Text} (h : ∀ c ∈ t, c.toNat < 0x80) : lowered t = t.map Char.toLower :=
  loweredBehind_of_ascii h []

theorem cutAt?_append_cons {before : Text} (h : separator ∉ before) (after : Text) :
    cutAt? separator (before ++ separator :: after) = some (before, after) := by
  induction before with
  | nil => simp [cutAt?]
  | cons c before ih =>
    rw [List.mem_cons, not_or] at h
    rw [List.cons_append, cutAt?, if_neg (Ne.symm h.1), ih h.2]
    rfl

/-- A text is cut at its first separator. -/
theorem cutAt?_eq_some_iff {t before behind : Text} :
    cutAt? separator t = some (before, behind) ↔ separator ∉ before ∧ t = before ++ separator :: behind := by
  constructor
  · intro h
    induction t generalizing before with
    | nil => cases h
    | cons c t ih =>
      rw [cutAt?] at h
      split at h
      · rename_i hc
        cases h
        simp [hc]
      · rename_i hc
        obtain ⟨⟨front, back⟩, hcut, heq⟩ := Option.map_eq_some_iff.mp h
        cases heq
        obtain ⟨hm, rfl⟩ := ih hcut
        exact ⟨List.not_mem_cons_of_ne_of_not_mem (Ne.symm hc) hm, rfl⟩
  · rintro ⟨hm, rfl⟩
    exact cutAt?_append_cons hm behind

theorem cutAt?_eq_none_iff {t : Text} : cutAt? separator t = none ↔ separator ∉ t := by
  constructor
  · intro h hm
    obtain ⟨before, behind, rfl, hb⟩ := List.eq_append_cons_of_mem hm
    rw [cutAt?_append_cons hb] at h
    cases h
  · intro hm
    cases h : cutAt? separator t with
    | none => rfl
    | some cut => exact absurd (by simp [(cutAt?_eq_some_iff.mp h).2]) hm

theorem prefix_append_cons_iff (h : separator ∉ old) {a b : Text} :
    old <+: a ++ separator :: b ↔ old <+: a := by
  constructor
  · intro hp
    rcases List.prefix_or_prefix_of_prefix hp (List.prefix_append a _) with hp' | ⟨rest, rfl⟩
    · exact hp'
    · rw [List.prefix_append_right_inj] at hp
      cases rest with
      | nil => simp
      | cons c rest =>
        obtain ⟨rfl, _⟩ := List.cons_prefix_cons.mp hp
        simp at h
  · exact fun hp => hp.trans (List.prefix_append a _)

section Separated

variable (h : separator ∉ old) (hne : old ≠ [])
include h hne

/-- Characters are left out only as far as a word reaches, and it does not reach the separator. -/
theorem replacedFrom_append_cons {skip : Nat} {a : Text} (hskip : skip ≤ a.length) (b : Text) :
    replacedFrom old new skip (a ++ separator :: b) =
      replacedFrom old new skip a ++ separator :: replaced old new b := by
  fun_induction replacedFrom old new skip a with
  | case1 skip =>
    obtain rfl : skip = 0 := by simpa using hskip
    have hp : ¬ old.isPrefixOf (separator :: b) := by
      rw [List.isPrefixOf_iff_prefix, ← List.nil_append (separator :: b), prefix_append_cons_iff h]
      simpa using hne
    rw [List.nil_append, replacedFrom, if_neg hp]
    rfl
  | case2 skip c rest ih =>
    rw [List.cons_append, replacedFrom, ih (by simpa using hskip)]
  | case3 c rest hp ih =>
    have hl := (List.isPrefixOf_iff_prefix.mp hp).length_le
    have hp' : old.isPrefixOf (c :: (rest ++ separator :: b)) := by
      rwa [List.isPrefixOf_iff_prefix, ← List.cons_append, prefix_append_cons_iff h,
        ← List.isPrefixOf_iff_prefix]
    rw [List.length_cons] at hl
    rw [List.cons_append, replacedFrom, if_pos hp', ih (by omega), List.append_assoc]
  | case4 c rest hp ih =>
    have hp' : ¬ old.isPrefixOf (c :: (rest ++ separator :: b)) := by
      rwa [List.isPrefixOf_iff_prefix, ← List.cons_append, prefix_append_cons_iff h,
        ← List.isPrefixOf_iff_prefix]
    rw [List.cons_append, replacedFrom, if_neg hp', ih (Nat.zero_le _), List.cons_append]

theorem replaced_append_cons (a b : Text) :
    replaced old new (a ++ separator :: b) = replaced old new a ++ separator :: replaced old new b :=
  replacedFrom_append_cons h hne (Nat.zero_le _) b

end Separated

/-- A text without one of a word's characters does not hold the word. -/
theorem replaced_of_notMem {c : Char} {t : Text} (h : c ∈ old) (hc : c ∉ t) : replaced old new t = t := by
  rw [replaced]
  induction t with
  | nil => rfl
  | cons d t ih =>
    have hp : ¬ old.isPrefixOf (d :: t) := by
      rw [List.isPrefixOf_iff_prefix]
      exact fun hp => hc (hp.subset h)
    rw [replacedFrom, if_neg hp, ih fun hm => hc (List.mem_cons_of_mem d hm)]

theorem joinWith_cons_cons (part next : Text) (parts : List Text) :
    joinWith [separator] (part :: next :: parts) =
      part ++ separator :: joinWith [separator] (next :: parts) := by
  rw [joinWith, List.intercalate_cons_cons, List.append_assoc]
  rfl

theorem forall_mem_joinWith {P : Char → Prop} {parts : List Text} (hs : P separator)
    (h : ∀ part ∈ parts, ∀ c ∈ part, P c) : ∀ c ∈ joinWith [separator] parts, P c := by
  induction parts with
  | nil => nofun
  | cons part parts ih =>
    rw [List.forall_mem_cons] at h
    cases parts with
    | nil => simpa [joinWith] using h.1
    | cons next parts =>
      rw [joinWith_cons_cons, List.forall_mem_append, List.forall_mem_cons]
      exact ⟨h.1, hs, ih h.2⟩

/-- What works on both sides of a separator works on all parts of a joined text. -/
theorem apply_joinWith {f : Text → Text} (hnil : f [] = [])
    (happ : ∀ a b, f (a ++ separator :: b) = f a ++ separator :: f b) (parts : List Text) :
    f (joinWith [separator] parts) = joinWith [separator] (parts.map f) := by
  induction parts with
  | nil => exact hnil
  | cons part parts ih =>
    cases parts with
    | nil => simp [joinWith]
    | cons next parts =>
      rw [joinWith_cons_cons, happ, ih]
      exact (joinWith_cons_cons _ _ _).symm

/-- Characters that are picked from a joined text without its separators are picked from the parts. -/
theorem filterMap_joinWith {f : Char → Option Char} (h : f separator = none) (parts : List Text) :
    (joinWith [separator] parts).filterMap f = parts.flatMap (·.filterMap f) := by
  induction parts with
  | nil => rfl
  | cons part parts ih =>
    cases parts with
    | nil => simp [joinWith]
    | cons next parts =>
      rw [joinWith_cons_cons, List.filterMap_append, List.filterMap_cons_none h, ih, ← List.flatMap_cons]

end PhotoNaming.Text
