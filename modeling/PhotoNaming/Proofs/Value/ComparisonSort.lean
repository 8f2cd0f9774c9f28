import PhotoNaming.Proofs.Outcome
import Mathlib.Data.List.FinRange
import Mathlib.Data.List.Pairwise
import Mathlib.Data.List.Sort

/-! Sorting by comparisons. A way to sort asks which of two items comes first, one question after the other,
and learns nothing else about the items. So it cannot do with answers that two different orders share. -/
namespace PhotoNaming

/-- An order in which items may be level. -/
structure IsWeakOrder {α : Type} (less : α → α → Bool) : Prop where
  asymm : ∀ a b, less a b → less b a = false
  split : ∀ a b c, less a c → less a b ∨ less b c

/-- A way to sort `n` items by their positions: whether one item comes before another one is asked until it is
clear how all of them are arranged. -/
inductive ComparisonSort (n : Nat)
  | arranged (order : List (Fin n))
  | compared (i j : Fin n) (before otherwise : ComparisonSort n)

variable {n : Nat} {less less' : Fin n → Fin n → Bool} {order order' placed : List (Fin n)} {i j : Fin n}

/-- Whether an item belongs in front of another one: it comes before it, or they are level and it already
stands in front. -/
def InFront (less : Fin n → Fin n → Bool) (i j : Fin n) : Prop := less i j ∨ less j i = false ∧ i < j

/-- Whether all items are arranged in ascending order, those that are level as they stand. -/
structure Arranges (less : Fin n → Fin n → Bool) (order : List (Fin n)) : Prop where
  perm : order.Perm (List.finRange n)
  ascending : order.Pairwise (InFront less)

theorem InFront.not_less (hw : IsWeakOrder less) (h : InFront less i j) : less j i = false := by
  rcases h with h | ⟨h, _⟩
  · exact hw.asymm i j h
  · exact h

theorem InFront.asymm (hw : IsWeakOrder less) (h : InFront less i j) : ¬ InFront less j i := by
  rintro (h' | ⟨h', hlt'⟩)
  · rw [h.not_less hw] at h'
    cases h'
  · rcases h with h | ⟨_, hlt⟩
    · rw [h'] at h
      cases h
    · exact absurd hlt' (lt_asymm hlt)

/-- What belongs in front of an item belongs in front of all behind it. -/
theorem InFront.of_less (hw : IsWeakOrder less) {k : Fin n} (h : less i j) (h' : InFront less j k) :
    InFront less i k := by
  rcases hw.split i k j h with hk | hk
  · exact .inl hk
  · rw [h'.not_less hw] at hk
    cases hk

namespace Arranges

theorem mem (h : Arranges less order) (i : Fin n) : i ∈ order := h.perm.mem_iff.mpr (List.mem_finRange i)

theorem nodup (h : Arranges less order) : order.Nodup := h.perm.nodup_iff.mpr (List.nodup_finRange n)

/-- There is one way to arrange items. -/
theorem unique (hw : IsWeakOrder less) (h : Arranges less order) (h' : Arranges less order') :
    order = order' :=
  List.Perm.eq_of_pairwise (fun _ _ _ _ hij hji => absurd hji (hij.asymm hw)) h.ascending h'.ascending
    (h.perm.trans h'.perm.symm)

/-- Where two orders arrange items alike, they put no two of them the other way round. -/
theorem not_reversed (hw : IsWeakOrder less) (hw' : IsWeakOrder less') (h : Arranges less order)
    (h' : Arranges less' order) (hij : less i j) : less' j i = false := by
  have hne : i ≠ j := by
    rintro rfl
    have := hw.asymm i i hij
    rw [hij] at this
    cases this
  let Apart (a b : Fin n) : Prop :=
    InFront less a b ∧ InFront less' a b ∨ InFront less b a ∧ InFront less' b a
  have hsymm : Std.Symm Apart := ⟨fun _ _ => Or.symm⟩
  have hpairwise : order.Pairwise Apart :=
    h.ascending.imp₂ (fun _ _ hab hab' => .inl ⟨hab, hab'⟩) h'.ascending
  rcases hpairwise.forall (h.mem i) (h.mem j) hne with ⟨_, hfront⟩ | ⟨hfront, _⟩
  · exact hfront.not_less hw'
  · rw [hfront.not_less hw] at hij
    cases hij

end Arranges

/-- A stable sort of the positions arranges the items. -/
theorem arranges_mergeSort (hw : IsWeakOrder less) :
    Arranges less ((List.finRange n).mergeSort fun i j => !less j i) := by
  have htrans (a b c : Fin n) (hab : (!less b a) = true) (hbc : (!less c b) = true) : (!less c a) = true := by
    simp only [Bool.not_eq_true'] at hab hbc ⊢
    by_contra hca
    rcases hw.split c b a (by simpa using hca) with h | h
    · rw [hbc] at h
      cases h
    · rw [hab] at h
      cases h
  have htotal (a b : Fin n) : ((!less b a) || (!less a b)) = true := by
    cases hab : less a b with
    | false => simp
    | true => simp [hw.asymm a b hab]
  have hperm : ((List.finRange n).mergeSort fun i j => !less j i).Perm (List.finRange n) :=
    List.mergeSort_perm _ _
  refine ⟨hperm, ?_⟩
  have hindexed := List.pairwise_mergeSort (List.zipIdxLE_trans htrans) (List.zipIdxLE_total htotal)
    (List.finRange n).zipIdx
  have hindex : ∀ entry ∈ (List.finRange n).zipIdx.mergeSort (List.zipIdxLE fun i j => !less j i),
      entry.2 = entry.1.val := by
    intro entry hentry
    obtain ⟨_, hk⟩ := List.mem_zipIdx' (List.mem_mergeSort.mp hentry)
    simp [hk]
  have hle := hindexed.imp_of_mem (S := fun a b => less b.1 a.1 = false ∧ (less a.1 b.1 ∨ a.1 ≤ b.1)) ?_
  · rw [← List.mergeSort_zipIdx, List.pairwise_map]
    have hne := hperm.nodup_iff.mpr (List.nodup_finRange n)
    rw [← List.mergeSort_zipIdx, List.Nodup, List.pairwise_map] at hne
    refine hle.imp₂ (fun a b h hne => ?_) hne
    rcases h with ⟨hnot, hlt | hle⟩
    · exact .inl hlt
    · exact .inr ⟨hnot, lt_of_le_of_ne hle hne⟩
  · intro a b ha hb h
    rw [List.zipIdxLE, hindex a ha, hindex b hb] at h
    simp only [Bool.if_false_right, Bool.if_true_right, Bool.and_eq_true, Bool.or_eq_true,
      decide_eq_true_eq, Bool.not_eq_eq_eq_not, Bool.not_true] at h
    simpa [or_comm] using h

namespace ComparisonSort

/-- How the items are arranged if every question is answered. -/
def outcome (less : Fin n → Fin n → Bool) : ComparisonSort n → List (Fin n)
  | arranged order => order
  | compared i j before otherwise => if less i j then before.outcome less else otherwise.outcome less

/-- Runs with questions that may fail. -/
def run {ε : Type} (ask : Fin n → Fin n → Except ε Bool) : ComparisonSort n → Except ε (List (Fin n))
  | arranged order => .ok order
  | compared i j before otherwise => do
    if ← ask i j then before.run ask else otherwise.run ask

/-- Whether a way to sort arranges items in every order that they may have. -/
def IsStable (s : ComparisonSort n) : Prop := ∀ less, IsWeakOrder less → Arranges less (s.outcome less)

section Run

variable {ε : Type} {ask : Fin n → Fin n → Except ε Bool} {s : ComparisonSort n} {fault : ε}

/-- A run that comes to an end has got the answers of any order that agrees with them. -/
theorem outcome_of_run (h : s.run ask = .ok order) (ha : ∀ i j b, ask i j = .ok b → less i j = b) :
    s.outcome less = order := by
  induction s with
  | arranged found => exact Except.ok.inj h
  | compared i j before otherwise hbefore hotherwise =>
    obtain ⟨b, hb, h⟩ := bind_eq_ok_iff.mp h
    rw [ComparisonSort.outcome, ha i j b hb]
    cases b with
    | true => exact hbefore h
    | false => exact hotherwise h

/-- A run that fails has put a question that fails. -/
theorem exists_of_run (h : s.run ask = .error fault) : ∃ i j, ask i j = .error fault := by
  induction s with
  | arranged found => cases h
  | compared i j before otherwise hbefore hotherwise =>
    rcases bind_eq_error_iff.mp h with h | ⟨b, _, h⟩
    · exact ⟨i, j, h⟩
    · cases b with
      | true => exact hbefore h
      | false => exact hotherwise h

/-- Questions that do not fail lead to the end. -/
theorem run_of_answered (ha : ∀ i j, ask i j = .ok (less i j)) : s.run ask = .ok (s.outcome less) := by
  cases h : s.run ask with
  | error fault =>
    obtain ⟨i, j, hf⟩ := exists_of_run h
    rw [ha] at hf
    cases hf
  | ok found =>
    refine congrArg Except.ok (outcome_of_run h fun i j b hb => ?_).symm
    rw [ha] at hb
    exact Except.ok.inj hb

/-- No way to sort can do with answers that two orders share, one of which has two items the other way
round. -/
theorem exists_fault_of_reversed (hs : s.IsStable) (hw : IsWeakOrder less) (hw' : IsWeakOrder less')
    (ha : ∀ i j b, ask i j = .ok b → less i j = b ∧ less' i j = b) (hij : less i j) (hji : less' j i) :
    ∃ fault, s.run ask = .error fault := by
  cases h : s.run ask with
  | error fault => exact ⟨fault, rfl⟩
  | ok found =>
    have hfound := hs less hw
    have hfound' := hs less' hw'
    rw [outcome_of_run h fun i j b hb => (ha i j b hb).1] at hfound
    rw [outcome_of_run h fun i j b hb => (ha i j b hb).2] at hfound'
    rw [Arranges.not_reversed hw hw' hfound hfound' hij] at hji
    cases hji

end Run

/-- Asks for the place of an item among others that are arranged, from the first one on. -/
def inserting (i : Fin n) : List (Fin n) → (List (Fin n) → ComparisonSort n) → ComparisonSort n
  | [], next => next [i]
  | j :: placed, next =>
    compared i j (next (i :: j :: placed)) (inserting i placed fun order => next (j :: order))

/-- Puts items one by one among others that are arranged. -/
def insertingAll : List (Fin n) → List (Fin n) → ComparisonSort n
  | [], placed => arranged placed
  | i :: items, placed => inserting i placed (insertingAll items)

/-- Sorting by insertion. -/
def insertion (n : Nat) : ComparisonSort n := insertingAll (List.finRange n) []

theorem outcome_inserting (next : List (Fin n) → ComparisonSort n) :
    (inserting i placed next).outcome less =
      (next (placed.orderedInsert (fun a b => less a b) i)).outcome less := by
  induction placed generalizing next with
  | nil => rfl
  | cons j placed ih =>
    rw [inserting, outcome, List.orderedInsert]
    split
    · rfl
    · rw [ih]

theorem outcome_insertingAll (items : List (Fin n)) :
    (insertingAll items placed).outcome less =
      items.foldl (fun placed i => placed.orderedInsert (fun a b => less a b) i) placed := by
  induction items generalizing placed with
  | nil => rfl
  | cons i items ih => rw [insertingAll, outcome_inserting, ih, List.foldl_cons]

/-- An item that stands behind others is put in its place among them. -/
theorem pairwise_orderedInsert (hw : IsWeakOrder less) (hp : placed.Pairwise (InFront less))
    (hi : ∀ j ∈ placed, j < i) : (placed.orderedInsert (fun a b => less a b) i).Pairwise (InFront less) := by
  induction placed with
  | nil => exact List.pairwise_singleton _ _
  | cons j placed ih =>
    rw [List.pairwise_cons] at hp
    rw [List.forall_mem_cons] at hi
    rw [List.orderedInsert]
    split
    · rename_i hij
      refine List.pairwise_cons.mpr ⟨List.forall_mem_cons.mpr ⟨.inl hij, ?_⟩, List.pairwise_cons.mpr hp⟩
      exact fun k hk => InFront.of_less hw hij (hp.1 k hk)
    · rename_i hij
      refine List.pairwise_cons.mpr ⟨fun k hk => ?_, ih hp.2 hi.2⟩
      rcases List.mem_cons.mp ((List.perm_orderedInsert _ _ _).mem_iff.mp hk) with rfl | hk
      · exact .inr ⟨by simpa using hij, hi.1⟩
      · exact hp.1 k hk

/-- Items that stand behind others are put in their places, one after the other. -/
theorem arranged_foldl {items : List (Fin n)} (hw : IsWeakOrder less) (hp : placed.Pairwise (InFront less))
    (hs : items.Pairwise (· < ·)) (hi : ∀ i ∈ items, ∀ j ∈ placed, j < i) :
    let found := items.foldl (fun placed i => placed.orderedInsert (fun a b => less a b) i) placed
    found.Perm (placed ++ items) ∧ found.Pairwise (InFront less) := by
  induction items generalizing placed with
  | nil => simpa using hp
  | cons i items ih =>
    rw [List.pairwise_cons] at hs
    rw [List.forall_mem_cons] at hi
    have hperm : (placed.orderedInsert (fun a b => less a b) i).Perm (i :: placed) :=
      List.perm_orderedInsert _ _ _
    have hbehind : ∀ k ∈ items, ∀ j ∈ placed.orderedInsert (fun a b => less a b) i, j < k := by
      intro k hk j hj
      rcases List.mem_cons.mp (hperm.mem_iff.mp hj) with rfl | hj
      · exact hs.1 k hk
      · exact hi.2 k hk j hj
    obtain ⟨hfound, hpairwise⟩ := ih (pairwise_orderedInsert hw hp hi.1) hs.2 hbehind
    exact ⟨hfound.trans ((hperm.append_right items).trans List.perm_middle.symm), hpairwise⟩

theorem isStable_insertion (n : Nat) : (insertion n).IsStable := by
  intro less hw
  have h := arranged_foldl hw List.Pairwise.nil (List.pairwise_lt_finRange n) nofun
  rw [insertion, outcome_insertingAll]
  exact ⟨h.1, h.2⟩

end ComparisonSort

end PhotoNaming
