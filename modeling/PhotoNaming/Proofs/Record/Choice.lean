import PhotoNaming.Proofs.Record.Offering

/-! Which of several properties for one code is left when they are offered one after the other: the first
of the greatest ones. A value that is in no order is left if it comes first, and never otherwise. -/
namespace PhotoNaming

/-- `p` is what is left of `offers`: one of them, which none of them supersedes and none before it is the
same as. It is the first of them or supersedes that. -/
structure Chosen (offers : List Property) (p : Property) : Prop where
  mem : ∃ front back, offers = front ++ p :: back ∧ ∀ q ∈ front, ¬ q.value.Same p.value
  greatest : ∀ q ∈ offers, ¬ q.value.Supersedes p.value
  first : ∀ q ∈ offers.head?, p = q ∨ p.value.Supersedes q.value

namespace Chosen

variable {offers : List Property} {p q : Property}

theorem singleton (p : Property) : Chosen [p] p where
  mem := ⟨[], [], rfl, by simp⟩
  greatest := by
    intro q hq
    rw [List.mem_singleton.mp hq]
    exact Value.not_before_self p.value
  first := by simp

theorem ne_nil (h : Chosen offers p) : offers ≠ [] := by
  obtain ⟨front, back, rfl, _⟩ := h.mem
  simp

theorem mem_offers (h : Chosen offers p) : p ∈ offers := by
  obtain ⟨front, back, rfl, _⟩ := h.mem
  simp

/-- A property offered later that supersedes the one left takes its place. -/
theorem superseded (h : Chosen offers p) (hs : q.value.Supersedes p.value) :
    Chosen (offers ++ [q]) q where
  mem := by
    refine ⟨offers, [], rfl, fun o ho hsame => ?_⟩
    exact h.greatest o ho (Value.Before.trans_same hs hsame.symm)
  greatest := by
    intro o ho hg
    rcases List.mem_append.mp ho with ho | ho
    · exact h.greatest o ho (Value.Before.trans hs hg)
    · rw [List.mem_singleton.mp ho] at hg
      exact q.value.not_before_self hg
  first := by
    rw [List.head?_append_of_ne_nil _ h.ne_nil]
    intro o ho
    rcases h.first o ho with rfl | hp
    · exact .inr hs
    · exact .inr (Value.Before.trans hp hs)

theorem kept (h : Chosen offers p) (hs : ¬ q.value.Supersedes p.value) : Chosen (offers ++ [q]) p where
  mem := by
    obtain ⟨front, back, rfl, hf⟩ := h.mem
    exact ⟨front, back ++ [q], by simp, hf⟩
  greatest := by
    intro o ho
    rcases List.mem_append.mp ho with ho | ho
    · exact h.greatest o ho
    · rwa [List.mem_singleton.mp ho]
  first := by
    rw [List.head?_append_of_ne_nil _ h.ne_nil]
    exact h.first

/-- Only if it comes first, a value that is in no order is left. -/
theorem eq_notANumber_iff (h : Chosen offers p) :
    p.value = .notANumber ↔ ∃ q ∈ offers.head?, q.value = .notANumber := by
  constructor
  · intro hp
    obtain ⟨q, hq⟩ := Option.ne_none_iff_exists'.mp (mt List.head?_eq_none_iff.mp h.ne_nil)
    rcases h.first q hq with rfl | hs
    · exact ⟨p, hq, hp⟩
    · exact absurd hp (Value.Before.ne_notANumber hs).2
  · rintro ⟨q, hq, hn⟩
    rcases h.first q hq with rfl | hs
    · exact hn
    · exact absurd hn (Value.Before.ne_notANumber hs).1

/-- Which one is left of offers whose values are ordered does not depend on their order, up to values that
are the same. -/
theorem same_of_perm {offers' : List Property} {p' : Property} (h : Chosen offers p)
    (h' : Chosen offers' p') (hperm : offers.Perm offers') (hk : p.value.scale = p'.value.scale)
    (hn : p.value ≠ .notANumber) (hn' : p'.value ≠ .notANumber) : p.value.Same p'.value := by
  have hle := h.greatest p' (hperm.mem_iff.mpr h'.mem_offers)
  have hge := h'.greatest p (hperm.mem_iff.mp h.mem_offers)
  rcases Value.before_cases hk hn hn' with hb | hs | hb
  · exact absurd hb hle
  · exact hs
  · exact absurd hb hge

end Chosen

namespace Record

/-- What offers for one code leave in a record. -/
theorem exists_chosen {offers : List Property} (h : offers ≠ []) :
    ∃ p, offers.foldl preferred none = some p ∧ Chosen offers p := by
  induction offers using List.reverseRecOn with
  | nil => exact absurd rfl h
  | append_singleton offers q ih =>
    rw [List.foldl_append, List.foldl_cons, List.foldl_nil]
    by_cases hn : offers = []
    · subst hn
      exact ⟨q, rfl, .singleton q⟩
    · obtain ⟨p, hp, hc⟩ := ih hn
      rw [hp, preferred]
      split
      · exact ⟨q, rfl, hc.superseded ‹_›⟩
      · exact ⟨p, rfl, hc.kept ‹_›⟩

end Record

end PhotoNaming
