import Mathlib.Data.List.Induction
import Mathlib.Data.List.Nodup

/-! Lists without their repeats, where each element stands as it first came up, and lists in parts by what
their elements have in common. -/
namespace PhotoNaming

section Distinct

variable {α : Type} [BEq α] [LawfulBEq α] {l : List α} {a : α}

/-- An element that is held already is left out at the end. -/
theorem eraseDups_concat_of_mem (h : a ∈ l) : (l ++ [a]).eraseDups = l.eraseDups := by
  have hnone : ([a].removeAll l).eraseDups = [] := by simp [List.removeAll, h]
  rw [List.eraseDups_append, hnone, List.append_nil]

/-- A new one stays. -/
theorem eraseDups_concat_of_notMem (h : a ∉ l) : (l ++ [a]).eraseDups = l.eraseDups ++ [a] := by
  have hnew : ([a].removeAll l).eraseDups = [a] := by simp [List.removeAll, h, List.eraseDups_cons]
  rw [List.eraseDups_append, hnew]

theorem nodup_eraseDups (l : List α) : l.eraseDups.Nodup := by
  induction l using List.reverseRecOn with
  | nil => exact List.nodup_nil
  | append_singleton l a ih =>
    by_cases h : a ∈ l
    · rwa [eraseDups_concat_of_mem h]
    · rw [eraseDups_concat_of_notMem h]
      exact ih.append (List.nodup_singleton a) (by simpa using h)

/-- What is left stands in the order in which it first came up. -/
theorem pairwise_idxOf_eraseDups (l : List α) : l.eraseDups.Pairwise fun a b => l.idxOf a < l.idxOf b := by
  induction l using List.reverseRecOn with
  | nil => exact .nil
  | append_singleton l c ih =>
    have hbefore : l.eraseDups.Pairwise fun a b => (l ++ [c]).idxOf a < (l ++ [c]).idxOf b := by
      refine ih.imp_of_mem fun ha hb hlt => ?_
      rwa [List.idxOf_append_of_mem (List.mem_eraseDups.mp ha),
        List.idxOf_append_of_mem (List.mem_eraseDups.mp hb)]
    by_cases hm : c ∈ l
    · rwa [eraseDups_concat_of_mem hm]
    · rw [eraseDups_concat_of_notMem hm, List.pairwise_append]
      refine ⟨hbefore, List.pairwise_singleton _ _, ?_⟩
      intro a ha b hb
      have ha := List.mem_eraseDups.mp ha
      have hlt := List.idxOf_lt_length_iff.mpr ha
      rw [List.mem_singleton.mp hb, List.idxOf_append_of_mem ha, List.idxOf_append_of_notMem hm]
      omega

end Distinct

/-- The parts of a list, one for each key, hold it all. -/
theorem flatMap_filter_perm {α κ : Type} [DecidableEq κ] {key : α → κ} {keys : List κ} {l : List α}
    (hn : keys.Nodup) (h : ∀ a ∈ l, key a ∈ keys) :
    (keys.flatMap fun k => l.filter fun a => key a = k).Perm l := by
  induction keys generalizing l with
  | nil =>
    rw [List.eq_nil_iff_forall_not_mem.mpr fun a ha => List.not_mem_nil (h a ha)]
    exact .nil
  | cons k keys ih =>
    rw [List.nodup_cons] at hn
    have hrest : (keys.flatMap fun k' => l.filter fun a => key a = k').Perm
        (l.filter fun a => !decide (key a = k)) := by
      have hother : ∀ a ∈ l.filter fun a => !decide (key a = k), key a ∈ keys := by
        intro a ha
        obtain ⟨hm, hne⟩ := List.mem_filter.mp ha
        exact (List.mem_cons.mp (h a hm)).resolve_left (by simpa using hne)
      refine .trans (.of_eq (List.flatMap_congr fun k' hk' => ?_)) (ih hn.2 hother)
      rw [List.filter_filter]
      refine List.filter_congr fun a _ => ?_
      by_cases he : key a = k'
      · have hne : k' ≠ k := fun hk => hn.1 (hk ▸ hk')
        simp [he, hne]
      · simp [he]
    rw [List.flatMap_cons]
    exact (hrest.append_left _).trans (List.filter_append_perm _ _)

end PhotoNaming
