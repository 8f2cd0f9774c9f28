import PhotoNaming.Proofs.Record.Completing

/-! Records of reordered tags. Which property is left for a code does not depend on the order of the groups
and of the tags in them, up to values that are alike. The one exception is a value that is in no order: it is
left where it comes first. -/
namespace PhotoNaming.Record

/-- The same groups of tags in another order, the tags of each group reordered as well. -/
def Reordered (groups groups' : List TagGroup) : Prop :=
  ∃ middle, groups.Perm middle ∧
    List.Forall₂ (fun g g' => g.name = g'.name ∧ g.tags.Perm g'.tags) middle groups'

/-- The first value that is offered for a code is in no order. -/
def StartsUnordered (catalog : Catalog) (groups : List TagGroup) (code : Text) : Prop :=
  ∃ p ∈ (candidates catalog groups code).head?, p.value = .notANumber

variable {catalog : Catalog} {groups groups' : List TagGroup} {facts : Facts} {source code : Text}

theorem scanned_perm (h : Reordered groups groups') : (scanned groups).Perm (scanned groups') := by
  obtain ⟨middle, hp, hm⟩ := h
  have hs : (scanned groups).Perm (scanned middle) := (hp.filter _).flatMap_right _
  refine hs.trans ?_
  clear hp hs
  induction hm with
  | nil => exact .refl _
  | @cons g g' middle groups' hg _ ih =>
    have ht : g.isThumbnail = g'.isThumbnail := by
      rw [TagGroup.isThumbnail, hg.1, ← TagGroup.isThumbnail]
    rw [scanned_cons, scanned_cons, ht]
    split
    · exact ih
    · exact hg.2.append ih

theorem candidates_perm (h : Reordered groups groups') (code : Text) :
    (candidates catalog groups code).Perm (candidates catalog groups' code) :=
  ((scanned_perm h).filterMap _).filter _

/-- What two reports leave for one code is the same up to alike values, unless just one of them starts with a
value that is in no order. -/
theorem alike_iff_of_perm {offers offers' : List Property} {p p' : Property} (h : Chosen offers p)
    (h' : Chosen offers' p') (hp : offers.Perm offers') (hk : p.value.scale = p'.value.scale) :
    p.value.Alike p'.value ↔ (p.value = .notANumber ↔ p'.value = .notANumber) := by
  constructor
  · exact Value.Alike.eq_notANumber_iff
  · intro hn
    by_cases hv : p.value = .notANumber
    · exact .inr ⟨hv, hn.mp hv⟩
    · exact .inl (h.same_of_perm h' hp hk hv (mt hn.mpr hv))

theorem candidates_eq_nil_iff (h : Reordered groups groups') :
    candidates catalog groups code = [] ↔ candidates catalog groups' code = [] := by
  rw [← List.length_eq_zero_iff, ← List.length_eq_zero_iff, (candidates_perm h code).length_eq]

section Built

variable {r r' : Record} (hg : Reordered groups groups')
  (h : (build Catalog.standard source groups facts).result = .ok r)
include hg h

/-- The order of tags does not decide whether there is a record. -/
theorem exists_build_reordered : ∃ r', (build Catalog.standard source groups' facts).result = .ok r' :=
  exists_build fun tag ht => (build_eq_ok_iff.mp h).1 tag ((scanned_perm hg).mem_iff.mpr ht)

variable (h' : (build Catalog.standard source groups' facts).result = .ok r')
include h'

theorem mem_codes_reordered : code ∈ r.codes ↔ code ∈ r'.codes := by
  rw [← not_iff_not, ← property?_eq_none_iff, ← property?_eq_none_iff]
  by_cases hc : candidates Catalog.standard groups code = []
  · rw [property?_eq_default? h hc, property?_eq_default? h' ((candidates_eq_nil_iff hg).mp hc)]
  · obtain ⟨p, hp, _⟩ := chosen_of_build h hc
    obtain ⟨p', hp', _⟩ := chosen_of_build h' (mt (candidates_eq_nil_iff hg).mpr hc)
    simp [hp, hp']

theorem held_reordered {p p' : Property} (hp : r.property? code = some p)
    (hp' : r'.property? code = some p') :
    (StartsUnordered Catalog.standard groups code ↔ StartsUnordered Catalog.standard groups' code) ↔
      p.value.Alike p'.value ∧ p.fileText = p'.fileText := by
  by_cases hc : candidates Catalog.standard groups code = []
  · have hc' := (candidates_eq_nil_iff hg).mp hc
    rw [property?_eq_default? h hc] at hp
    rw [property?_eq_default? h' hc', hp] at hp'
    cases hp'
    simp [StartsUnordered, hc, hc', Value.alike_refl]
  · obtain ⟨q, hq, hch⟩ := chosen_of_build h hc
    obtain ⟨q', hq', hch'⟩ := chosen_of_build h' (mt (candidates_eq_nil_iff hg).mpr hc)
    cases hq.symm.trans hp
    cases hq'.symm.trans hp'
    obtain ⟨d, hd, ho⟩ := ofReport_of_build h Catalog.isUnambiguous_standard (mem_of_property? hp)
    obtain ⟨d', hd', ho'⟩ := ofReport_of_build h' Catalog.isUnambiguous_standard (mem_of_property? hp')
    rw [code_of_property? hp] at hd
    rw [code_of_property? hp', hd] at hd'
    cases hd'
    have hk : p.value.scale = p'.value.scale := Property.scale_eq_of_ofReport ho ho'
    rw [StartsUnordered, StartsUnordered, ← hch.eq_notANumber_iff, ← hch'.eq_notANumber_iff,
      ← alike_iff_of_perm hch hch' (candidates_perm hg code) hk]
    exact ⟨fun ha => ⟨ha, Property.fileText_eq_of_alike ho ho' ha⟩, And.left⟩

end Built

/-- Reordered tags make a record if the tags before did, of properties for the same codes. The two properties
for a code have alike values, shown alike in file names, unless a value that is in no order comes first for
the code in just one of the two orders. -/
theorem build_reordered {r : Record} (hg : Reordered groups groups')
    (h : (build Catalog.standard source groups facts).result = .ok r) :
    ∃ r', (build Catalog.standard source groups' facts).result = .ok r' ∧
      (∀ code, code ∈ r.codes ↔ code ∈ r'.codes) ∧
      ∀ code p p', r.property? code = some p → r'.property? code = some p' →
        ((StartsUnordered Catalog.standard groups code ↔ StartsUnordered Catalog.standard groups' code) ↔
          p.value.Alike p'.value ∧ p.fileText = p'.fileText) := by
  obtain ⟨r', h'⟩ := exists_build_reordered hg h
  exact ⟨r', h', fun _ => mem_codes_reordered hg h h', fun _ _ _ hp hp' => held_reordered hg h h' hp hp'⟩

/-- A group moved behind another one, and two of its tags exchanged. -/
theorem build_moved_group :
    ∃ r r',
      (build Catalog.standard "DSC0001.ARW"
        [⟨"EXIF", [("FNumber", "f/8"), ("FNumber", "f/11")]⟩, ⟨"Image", [("Make", "Sony")]⟩]
        ⟨⟨2020, 1, 2, 3, 4, 5, 0, by decide, by decide, by decide⟩, "ARW", "DSC0001", 24000000⟩).result =
          .ok r ∧
      (build Catalog.standard "DSC0001.ARW"
        [⟨"Image", [("Make", "Sony")]⟩, ⟨"EXIF", [("FNumber", "f/11"), ("FNumber", "f/8")]⟩]
        ⟨⟨2020, 1, 2, 3, 4, 5, 0, by decide, by decide, by decide⟩, "ARW", "DSC0001", 24000000⟩).result =
          .ok r' ∧
      ∀ code, code ∈ r.codes ↔ code ∈ r'.codes := by
  have hok : (build Catalog.standard "DSC0001.ARW"
      [⟨"EXIF", [("FNumber", "f/8"), ("FNumber", "f/11")]⟩, ⟨"Image", [("Make", "Sony")]⟩]
      ⟨⟨2020, 1, 2, 3, 4, 5, 0, by decide, by decide, by decide⟩, "ARW", "DSC0001", 24000000⟩).result.isOk := by
    decide +kernel
  obtain ⟨r, hr⟩ := exists_eq_ok_of_isOk hok
  have hg : Reordered [⟨"EXIF", [("FNumber", "f/8"), ("FNumber", "f/11")]⟩, ⟨"Image", [("Make", "Sony")]⟩]
      [⟨"Image", [("Make", "Sony")]⟩, ⟨"EXIF", [("FNumber", "f/11"), ("FNumber", "f/8")]⟩] :=
    ⟨_, .swap _ _ _, .cons ⟨rfl, .refl _⟩ (.cons ⟨rfl, .swap _ _ _⟩ .nil)⟩
  obtain ⟨r', hr', hc, _⟩ := build_reordered hg hr
  exact ⟨r, r', hr, hr', hc⟩

/-- The f-number that is no number is left where it comes first, and is not where it comes second. -/
theorem build_exchanged_fNumbers :
    Reordered [⟨"EXIF", [("FNumber", "f/nan"), ("FNumber", "f/8")]⟩]
      [⟨"EXIF", [("FNumber", "f/8"), ("FNumber", "f/nan")]⟩] ∧
    ((build Catalog.standard "DSC0001.ARW" [⟨"EXIF", [("FNumber", "f/nan"), ("FNumber", "f/8")]⟩]
      ⟨⟨2020, 1, 2, 3, 4, 5, 0, by decide, by decide, by decide⟩, "ARW", "DSC0001", 24000000⟩).result.map
        (·.fileText "fs")) = .ok "fnan" ∧
    ((build Catalog.standard "DSC0001.ARW" [⟨"EXIF", [("FNumber", "f/8"), ("FNumber", "f/nan")]⟩]
      ⟨⟨2020, 1, 2, 3, 4, 5, 0, by decide, by decide, by decide⟩, "ARW", "DSC0001", 24000000⟩).result.map
        (·.fileText "fs")) = .ok "f8" := by
  refine ⟨⟨_, .refl _, .cons ⟨rfl, .swap _ _ _⟩ .nil⟩, ?_, ?_⟩
  · decide +kernel
  · decide +kernel

end PhotoNaming.Record
