import PhotoNaming.Proofs.Record.Building
import PhotoNaming.Proofs.Duration.Counting

/-! Which photos have a record. A build ends early just for an exposure time that can be read and is so long
that it has no form in file names; all other tags and all file facts leave the build going. -/
namespace PhotoNaming.Record

variable {catalog : Catalog} {tag : Text × Text} {groups : List TagGroup} {facts : Facts} {source : Text}

/-- Whether a tag reports an exposure time that is too long for a form in file names. -/
def IsOverlong (catalog : Catalog) (tag : Text × Text) : Prop :=
  ∃ e d, catalog.byName? tag.1 = some e ∧ e.format = .exposure ∧ Reading.duration tag.2 = .ok d ∧
    d.IsOverlong

/-- A text that can be read and not be written is an exposure time. -/
theorem ofReport_eq_unwritable {e : Descriptor} {raw : Text} {fault : DurationFault}
    (h : Property.ofReport e raw = .error (.unwritable fault)) :
    e.format = .exposure ∧ ∃ d : Duration, Reading.duration raw = .ok d ∧ d.fileText = .error fault := by
  obtain ⟨v, hr, ht⟩ := Property.ofReport_eq_unwritable_iff.mp h
  obtain ⟨he, d, rfl, hd⟩ := (Format.reads_of_read hr).fileText_eq_error_iff.mp ht
  rw [he] at hr
  obtain ⟨d', hd', hv⟩ := map_eq_ok_iff.mp hr
  cases hv
  exact ⟨he, d, hd', hd⟩

theorem unwritable_iff : Unwritable catalog tag ↔ IsOverlong catalog tag := by
  constructor
  · rintro ⟨e, fault, he, h⟩
    obtain ⟨hf, d, hd, ht⟩ := ofReport_eq_unwritable h
    refine ⟨e, d, he, hf, hd, by_contra fun hl => ?_⟩
    obtain ⟨text, hw⟩ := Duration.exists_fileText hl
    rw [hw] at ht
    cases ht
  · rintro ⟨e, d, he, hf, hd, hl⟩
    refine ⟨e, .days 1000000000, he, Property.ofReport_eq_unwritable_iff.mpr ⟨.duration d, ?_, ?_⟩⟩
    · rw [hf]
      exact map_eq_ok_iff.mpr ⟨d, hd, rfl⟩
    · rw [hf]
      exact Duration.fileText_of_isOverlong hl

/-- No file fact is an exposure time. -/
theorem format_ne_exposure {report : Text × Text} (hm : report ∈ facts.reports) {e : Descriptor}
    (he : Catalog.standard.byCode? report.1 = some e) : e.format ≠ .exposure := by
  simp only [Facts.reports, List.mem_cons, List.not_mem_nil, or_false] at hm
  rcases hm with rfl | rfl | rfl | rfl | rfl | rfl <;>
    · cases he
      decide

theorem exists_build (h : ∀ tag ∈ scanned groups, ¬ Unwritable Catalog.standard tag) :
    ∃ r, (build Catalog.standard source groups facts).result = .ok r := by
  have hs : ∀ report ∈ facts.reports, ∀ e fault, Catalog.standard.byCode? report.1 = some e →
      Property.ofReport e report.2 ≠ .error (.unwritable fault) :=
    fun report hm e fault he ho => format_ne_exposure hm he (ofReport_eq_unwritable ho).1
  obtain ⟨r, hr⟩ := exists_supplyAll (r := gathered Catalog.standard source groups) hs
  exact ⟨r, build_eq_ok_iff.mpr ⟨h, hr⟩⟩

/-- A photo has a record unless one of its tags reports an exposure time of, but for less than 6867
microseconds, 24000000000 hours. -/
theorem exists_build_iff :
    (∃ r, (build Catalog.standard source groups facts).result = .ok r) ↔
      ∀ tag ∈ scanned groups, ¬ IsOverlong Catalog.standard tag := by
  simp only [← unwritable_iff]
  constructor
  · rintro ⟨r, hr⟩
    exact (build_eq_ok_iff.mp hr).1
  · exact exists_build

/-- The longest exposure time ends the build of a record, where only that time should be left out. -/
theorem build_longest_exposure :
    (build Catalog.standard "DSC0001.ARW" [⟨"EXIF", [("ExposureTime", "23999999999 h 3599.999999 s")]⟩]
      ⟨⟨2020, 1, 2, 3, 4, 5, 0, by decide, by decide, by decide⟩, "ARW", "DSC0001", 24000000⟩).result =
        .error (.days 1000000000) := by
  decide +kernel

end PhotoNaming.Record
