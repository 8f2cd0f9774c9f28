import PhotoNaming.Record.Building
import PhotoNaming.Proofs.Repeats
import PhotoNaming.Proofs.Value.Order

/-! Offering properties to a record. What a record holds for a code comes only from the properties offered
for that code, and codes keep the order in which they first came up. -/
namespace PhotoNaming

namespace Record

/-- The codes of a record's properties, in order. -/
def codes (r : Record) : List Text := r.properties.map (·.code)

theorem contains_iff {r : Record} {code : Text} : r.contains code ↔ code ∈ r.codes := by
  simp [contains, property?, codes, List.find?_isSome]

theorem property?_eq_none_iff {r : Record} {code : Text} : r.property? code = none ↔ code ∉ r.codes := by
  simp [property?, codes, List.find?_eq_none]

theorem code_of_property? {r : Record} {code : Text} {p : Property} (h : r.property? code = some p) :
    p.code = code := by
  simpa using List.find?_some h

theorem mem_of_property? {r : Record} {code : Text} {p : Property} (h : r.property? code = some p) :
    p ∈ r.properties :=
  List.mem_of_find?_eq_some h

/-- Putting a property in the place of another one leaves all codes as they are. -/
private theorem code_replaced (p q : Property) : (if q.code = p.code then p else q).code = q.code := by
  split
  · exact Eq.symm ‹_›
  · rfl

theorem codes_put (r : Record) (p : Property) :
    (r.put p).codes = if r.contains p.code then r.codes else r.codes ++ [p.code] := by
  rw [put]
  split
  · simp [codes, Function.comp_def, code_replaced]
  · simp [codes]

theorem property?_put (r : Record) (p : Property) (code : Text) :
    (r.put p).property? code = if p.code = code then some p else r.property? code := by
  rw [put]
  split
  · rename_i hc
    have hm : ({ r with properties := r.properties.map fun q => if q.code = p.code then p else q } :
        Record).property? code = (r.property? code).map fun q => if q.code = p.code then p else q := by
      simp only [property?, List.find?_map, Function.comp_def, code_replaced]
    rw [hm]
    cases hq : r.property? code with
    | none =>
      have hne : p.code ≠ code := fun he => property?_eq_none_iff.mp hq (he ▸ contains_iff.mp hc)
      simp [hne]
    | some q =>
      rw [Option.map_some, code_of_property? hq]
      by_cases he : code = p.code
      · simp [he]
      · simp [he, Ne.symm he]
  · rename_i hc
    have hn : p.code = code → r.property? code = none := fun he =>
      property?_eq_none_iff.mpr (he ▸ mt contains_iff.mpr hc)
    simp only [property?, List.find?_append] at hn ⊢
    split
    · simp [*]
    · simp [*]

/-- What is held for a code when a property is offered for it: the new one, if there was none or if it
supersedes the one held. -/
def preferred (held : Option Property) (p : Property) : Option Property :=
  match held with
  | none => some p
  | some q => if p.value.Supersedes q.value then some p else some q

theorem property?_offer (r : Record) (p : Property) (code : Text) :
    (r.offer p).property? code =
      if p.code = code then preferred (r.property? code) p else r.property? code := by
  by_cases hc : p.code = code
  · subst hc
    rw [offer, accepts, if_pos rfl]
    cases hq : r.property? p.code with
    | none => simp [property?_put, preferred]
    | some q =>
      by_cases hs : p.value.Supersedes q.value
      · simp [hs, property?_put, preferred]
      · simp [hs, hq, preferred]
  · rw [offer, if_neg hc]
    split
    · rw [property?_put, if_neg hc]
    · rfl

theorem codes_offer (r : Record) (p : Property) :
    (r.offer p).codes = if p.code ∈ r.codes then r.codes else r.codes ++ [p.code] := by
  have hp := codes_put r p
  simp only [contains_iff] at hp
  rw [offer]
  split
  · exact hp
  · rename_i ha
    cases hq : r.property? p.code with
    | none => simp [accepts, hq] at ha
    | some q =>
      have hm : p.code ∈ r.codes := List.mem_map.mpr ⟨q, mem_of_property? hq, code_of_property? hq⟩
      rw [if_pos hm]

theorem mem_offer {r : Record} {p q : Property} (h : q ∈ (r.offer p).properties) :
    q ∈ r.properties ∨ q = p := by
  rw [offer, put] at h
  split_ifs at h
  · obtain ⟨o, ho, rfl⟩ := List.mem_map.mp h
    split
    · exact .inr rfl
    · exact .inl ho
  · simpa using h
  · exact .inl h

variable (r : Record) (offers : List Property)

/-- Among all that is offered, only the properties with a code matter for what is held for that code. -/
theorem property?_offers (code : Text) :
    (offers.foldl offer r).property? code =
      (offers.filter (·.code = code)).foldl preferred (r.property? code) := by
  induction offers generalizing r with
  | nil => rfl
  | cons p offers ih =>
    rw [List.foldl_cons, ih, property?_offer]
    by_cases hc : p.code = code
    · simp [hc]
    · simp [hc]

/-- A record holds nothing but what it held or was offered. -/
theorem mem_offers {p : Property} (h : p ∈ (offers.foldl offer r).properties) :
    p ∈ r.properties ∨ p ∈ offers := by
  induction offers generalizing r with
  | nil => exact .inl h
  | cons q offers ih =>
    rcases ih _ h with hp | hp
    · rcases mem_offer hp with hp | rfl
      · exact .inl hp
      · exact .inr List.mem_cons_self
    · exact .inr (List.mem_cons_of_mem q hp)

/-- Codes stand in the order in which they were first offered. -/
theorem codes_offers (source : Text) :
    (offers.foldl offer (empty source)).codes = (offers.map (·.code)).eraseDups := by
  induction offers using List.reverseRecOn with
  | nil => rfl
  | append_singleton offers p ih =>
    rw [List.foldl_concat, codes_offer, ih, List.map_append, List.map_singleton]
    by_cases hm : p.code ∈ offers.map (·.code)
    · rw [if_pos (List.mem_eraseDups.mpr hm), eraseDups_concat_of_mem hm]
    · rw [if_neg (mt List.mem_eraseDups.mp hm), eraseDups_concat_of_notMem hm]

end Record

end PhotoNaming
