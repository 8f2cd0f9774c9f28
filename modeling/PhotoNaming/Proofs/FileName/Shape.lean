import PhotoNaming.FileName
import PhotoNaming.Proofs.Path.Components
import PhotoNaming.Proofs.Path.Extension
import Mathlib.Data.List.Chain

/-! What patterns can make of a record's texts: levels are always names, and a file name is always a
stem and an extension that can be told apart, whatever the texts hold. -/
namespace PhotoNaming.FileName

open PhotoNaming.Path (IsName IsExtension slashed)

theorem not_isForbidden_of_mem_sanitized {t : Text} {c : Char} (h : c ∈ sanitized t) :
    isForbidden c = false := by
  obtain ⟨d, _, hd⟩ := List.mem_map.mp h
  split at hd
  · rw [← hd]
    decide
  · rename_i hn
    rw [← hd]
    simpa using hn

theorem slash_notMem_sanitized (t : Text) : '/' ∉ sanitized t := by
  intro h
  have hf := not_isForbidden_of_mem_sanitized h
  exact absurd hf (by decide)

theorem isName_level (t : Text) : IsName (level t) := by
  unfold level
  split
  · exact ⟨by decide, by decide, by decide, by decide⟩
  · rename_i h
    refine ⟨?_, ?_, ?_, slash_notMem_sanitized t⟩ <;> intro he <;> exact h (by rw [he]; decide)

theorem length_nested (path : Text) (names : List Text) :
    (nested path names).length = names.length := by
  induction names generalizing path with
  | nil => rfl
  | cons n names ih => rw [nested, List.length_cons, List.length_cons, ih]

/-- Each directory is the one before it with one more name and a slash. -/
theorem isChain_nested {path : Text} {names : List Text} (h : ∀ n ∈ names, IsName n) :
    List.IsChain (fun above d => ∃ n, IsName n ∧ d = above ++ n ++ ['/'])
      (path :: nested path names) := by
  induction names generalizing path with
  | nil => exact .singleton path
  | cons n names ih =>
    rw [nested]
    exact .cons_cons ⟨n, h n (by simp), rfl⟩ (ih fun m hm => h m (by simp [hm]))

theorem getLastD_nested (path : Text) (names : List Text) :
    (nested path names).getLastD path = path ++ slashed names := by
  induction names generalizing path with
  | nil => simp [nested]
  | cons n names ih =>
    rw [nested, List.getLastD_cons, ih]
    simp

/-- The directories are those of the first names, of one or more. -/
theorem mem_nested {path d : Text} {names : List Text} :
    d ∈ nested path names ↔ ∃ front, front ≠ [] ∧ front <+: names ∧ d = path ++ slashed front := by
  induction names generalizing path with
  | nil =>
    simp only [nested, List.not_mem_nil, List.prefix_nil, false_iff]
    rintro ⟨front, hne, hf, _⟩
    exact hne hf
  | cons n names ih =>
    rw [nested, List.mem_cons, ih]
    constructor
    · rintro (rfl | ⟨front, _, hf, rfl⟩)
      · exact ⟨[n], by simp, by simp, by simp⟩
      · exact ⟨n :: front, by simp, List.cons_prefix_cons.mpr ⟨rfl, hf⟩, by simp⟩
    · rintro ⟨front, hne, hf, rfl⟩
      rcases List.prefix_cons_iff.mp hf with rfl | ⟨rest, rfl, hr⟩
      · exact absurd rfl hne
      · by_cases hnil : rest = []
        · exact .inl (by simp [hnil])
        · exact .inr ⟨rest, hnil, hr, by simp⟩

variable (r : Record) (pattern : Pattern) (valid : List Text)

theorem isExtension_parts : IsExtension (parts r pattern valid).2 := by
  simp only [parts]
  split
  · dsimp only [Path.splitExtension]
    exact Path.isExtension_splitName _
  · dsimp only [Path.extension]
    exact Path.isExtension_splitName _

theorem slash_notMem_parts :
    '/' ∉ (parts r pattern valid).1 ∧ '/' ∉ (parts r pattern valid).2 := by
  have hs := slash_notMem_sanitized (pattern.render r)
  simp only [parts]
  split
  · have he := Path.splitName_append_eq (sanitized (pattern.render r))
    have hp := Path.splitExtension_append (.inl rfl : [] = [] ∨ _) hs
    rw [List.nil_append, List.nil_append] at hp
    rw [hp]
    exact ⟨fun h => hs (he ▸ List.mem_append_left _ h), fun h => hs (he ▸ List.mem_append_right _ h)⟩
  · refine ⟨?_, Path.slash_notMem_extension r.source⟩
    intro h
    obtain ⟨c, hc, hd⟩ := List.mem_map.mp h
    split at hd
    · exact absurd hd (by decide)
    · exact hs (hd ▸ hc)

/-- A name without extension has no dot. -/
theorem dot_notMem_parts (h : (parts r pattern valid).2 = []) :
    '.' ∉ (parts r pattern valid).1 := by
  simp only [parts] at h ⊢
  generalize Path.splitExtension (sanitized (pattern.render r)) = cut at h ⊢
  split
  · rename_i hv
    rw [if_pos hv] at h
    exact absurd h hv.1
  · intro hm
    obtain ⟨c, _, hd⟩ := List.mem_map.mp hm
    split at hd
    · exact absurd hd (by decide)
    · exact absurd hd ‹_›

end PhotoNaming.FileName
