import PhotoNaming.Catalog.Standard
import PhotoNaming.Proofs.Catalog.Report
import Mathlib.Data.List.Find
import Mathlib.Data.List.Nodup

/-! Catalogs in which a code leads to one property only. The standard catalog is one of them, also when some
of its codes are left out. -/
namespace PhotoNaming.Catalog

variable {c : Catalog} {d : Descriptor} {name code : Text} {codes : List Text}

/-- No two properties share a code. -/
def IsUnambiguous (c : Catalog) : Prop := (c.descriptors.map (·.code)).Nodup

theorem mem_of_byName? (h : c.byName? name = some d) : d ∈ c.descriptors := by
  rw [byName?, Option.or_eq_some_iff] at h
  rcases h with h | ⟨_, h⟩
  · exact List.mem_of_find?_eq_some h
  · exact List.mem_of_find?_eq_some h

/-- Among different keys only one property has a given one. -/
theorem find?_eq_some_iff_of_nodup {descriptors : List Descriptor} {field : Descriptor → Text} {key : Text}
    (h : (descriptors.map field).Nodup) :
    descriptors.find? (field · = key) = some d ↔ d ∈ descriptors ∧ field d = key := by
  constructor
  · intro hd
    exact ⟨List.mem_of_find?_eq_some hd, by simpa using List.find?_some hd⟩
  · rintro ⟨hd, rfl⟩
    cases he : descriptors.find? (field · = field d) with
    | none => exact absurd (List.find?_eq_none.mp he d hd) (by simp)
    | some e =>
      have hfield : field e = field d := by simpa using List.find?_some he
      rw [List.inj_on_of_nodup_map h (List.mem_of_find?_eq_some he) hd hfield]

/-- What a name leads to, its code leads to as well. -/
theorem byCode?_of_byName? (hc : c.IsUnambiguous) (h : c.byName? name = some d) :
    c.byCode? d.code = some d :=
  (find?_eq_some_iff_of_nodup hc).mpr ⟨mem_of_byName? h, rfl⟩

theorem isUnambiguous_standard : standard.IsUnambiguous := by
  rw [IsUnambiguous, standard]
  decide

theorem isUnambiguous_standardWithout (codes : List Text) : (standardWithout codes).IsUnambiguous :=
  isUnambiguous_standard.sublist (List.filter_sublist.map _)

theorem byCode?_standardWithout :
    (standardWithout codes).byCode? code = if code ∈ codes then none else standard.byCode? code := by
  simp only [byCode?, standardWithout, standard, List.find?_filter]
  split
  · rw [List.find?_eq_none]
    rintro d -
    simp only [Bool.not_eq_true', List.contains_eq_mem, decide_eq_true_eq,
      decide_eq_false_iff_not, not_and]
    rintro hn rfl
    exact hn ‹_›
  · refine List.find?_congr fun d _ => ?_
    by_cases hd : d.code = code
    · simp [*]
    · simp [hd]

theorem contains_standardWithout :
    (standardWithout codes).contains code ↔ code ∉ codes ∧ standard.contains code := by
  rw [contains, byCode?_standardWithout]
  split <;> simp [*, contains]

end PhotoNaming.Catalog
