import PhotoNaming.Proofs.Record.Completing
import PhotoNaming.Proofs.Tag.Grouping

/-! Photos with a single tag. What the tag is reported as is the property that the record holds for the code
of its name. -/
namespace PhotoNaming

variable {key group name text : Text} {tag : Tag} {d : Descriptor} {p : Property}

theorem TagGroup.ofTags_single (hk : Text.cutAt? ' ' key = some (group, name))
    (hr : (tag.report name).result = .ok text) :
    (TagGroup.ofTags [(key, tag)]).result = .ok [⟨group, [(name, text)]⟩] :=
  result_ofTagsBehind_eq_ok_iff.mpr ⟨[⟨group, name, text⟩], .line hk hr .nil, rfl⟩

namespace Record

/-- The record of a photo with these tags embedded in it. -/
def MadeOf (tags : List (Text × Tag)) (source : Text) (facts : Facts) (r : Record) : Prop :=
  ∃ groups, (TagGroup.ofTags tags).result = .ok groups ∧
    (build Catalog.standard source groups facts).result = .ok r

/-- A photo whose only tag makes a property has a record, and it holds that property. -/
theorem exists_madeOf_single (hk : Text.cutAt? ' ' key = some (group, name))
    (hg : ¬ Text.occurs "thumbnail" (Text.lowered group)) (hr : (tag.report name).result = .ok text)
    (hd : Catalog.standard.byName? name = some d) (hp : Property.ofReport d text = .ok p)
    (source : Text) (facts : Facts) : ∃ r, MadeOf [(key, tag)] source facts r ∧ r.property? d.code = some p := by
  have ho : offered? Catalog.standard (name, text) = some p := offered?_eq_some_iff.mpr ⟨d, hd, hp⟩
  have hscan : scanned [⟨group, [(name, text)]⟩] = [(name, text)] := by
    rw [scanned_cons, TagGroup.isThumbnail, if_neg hg]
    rfl
  have hw : ∀ t ∈ scanned [⟨group, [(name, text)]⟩], ¬ Unwritable Catalog.standard t := by
    rw [hscan]
    intro t ht
    rw [List.mem_singleton.mp ht]
    rintro ⟨d', fault, hd', hp'⟩
    rw [hd] at hd'
    cases hd'
    rw [hp] at hp'
    cases hp'
  have hc : candidates Catalog.standard [⟨group, [(name, text)]⟩] d.code = [p] := by
    simp [candidates, offers, hscan, ho, Property.code_of_ofReport hp]
  obtain ⟨r, hb⟩ : ∃ r, (build Catalog.standard source [⟨group, [(name, text)]⟩] facts).result = .ok r :=
    exists_build hw
  obtain ⟨q, hq, hch⟩ := chosen_of_build hb (by rw [hc]; exact List.cons_ne_nil p [])
  rw [hc] at hch
  obtain rfl := List.mem_singleton.mp hch.mem_offers
  exact ⟨r, ⟨_, TagGroup.ofTags_single hk hr, hb⟩, hq⟩

end Record

end PhotoNaming
