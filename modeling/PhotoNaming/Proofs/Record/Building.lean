import PhotoNaming.Proofs.Record.Scanning
import PhotoNaming.Proofs.Record.Supplying
import PhotoNaming.Proofs.Record.Stating

/-! Built records. Each code has what its offers leave, or else what the file facts give for it, and nothing
besides. -/
namespace PhotoNaming.Record

/-- The property that the file facts give for a code. -/
def default? (catalog : Catalog) (facts : Facts) (code : Text) : Option Property :=
  (facts.reports.find? (·.1 = code)).bind (reported? catalog)

variable {catalog : Catalog} {groups : List TagGroup} {facts : Facts} {source code : Text} {r : Record}

theorem build_eq_ok_iff :
    (build catalog source groups facts).result = .ok r ↔
      (∀ tag ∈ scanned groups, ¬ Unwritable catalog tag) ∧
        (supplyAll catalog (gathered catalog source groups) facts.reports).result = .ok r := by
  rw [build, Logged.result_bind_eq_ok_iff]
  simp only [gather_eq_ok_iff, complete, Logged.result_bind_eq_ok_iff, Except.ok.injEq]
  constructor
  · rintro ⟨_, ⟨hw, rfl⟩, _, hs, rfl⟩
    exact ⟨hw, hs⟩
  · rintro ⟨hw, hs⟩
    exact ⟨_, ⟨hw, rfl⟩, r, hs, rfl⟩

theorem code_of_default? {p : Property} (h : default? catalog facts code = some p) : p.code = code := by
  obtain ⟨report, hr, hp⟩ := Option.bind_eq_some_iff.mp h
  rw [code_of_reported? hp]
  simpa using List.find?_some hr

/-- A report adds its default unless a tag offered something for its code. -/
theorem supplied?_gathered {report : Text × Text} (hm : report ∈ facts.reports) :
    supplied? catalog (gathered catalog source groups) report =
      if candidates catalog groups report.1 = [] then default? catalog facts report.1 else none := by
  rw [supplied?, default?, Facts.find?_reports hm]
  by_cases hc : candidates catalog groups report.1 = []
  · rw [if_neg (mt (fun h => mem_codes_gathered.mp (contains_iff.mp h)) (not_not_intro hc)), if_pos hc]
    rfl
  · rw [if_pos (contains_iff.mpr (mem_codes_gathered.mpr hc)), if_neg hc]

section Built

variable (h : (build catalog source groups facts).result = .ok r)
include h

/-- A built record is the one gathered from the tags, with the properties that facts add behind it. -/
theorem eq_extended_of_build :
    r = (gathered catalog source groups).extended
      (facts.reports.filterMap (supplied? catalog (gathered catalog source groups))) :=
  supplyAll_result facts.nodup_codes (build_eq_ok_iff.mp h).2

/-- A code that tags offered something for has the chosen one of these. -/
theorem chosen_of_build (hc : candidates catalog groups code ≠ []) :
    ∃ p, r.property? code = some p ∧ Chosen (candidates catalog groups code) p := by
  obtain ⟨p, hp, hch⟩ := exists_chosen hc
  refine ⟨p, ?_, hch⟩
  rw [eq_extended_of_build h, property?_extended, property?_gathered, hp, Option.some_or]

/-- All other codes have what the file facts give for them. -/
theorem property?_eq_default? (hc : candidates catalog groups code = []) :
    r.property? code = default? catalog facts code := by
  rw [eq_extended_of_build h, property?_extended, find?_supplied facts.nodup_codes, property?_gathered, hc,
    List.foldl_nil, Option.none_or]
  cases hf : facts.reports.find? (·.1 = code) with
  | none => simp [default?, hf]
  | some report =>
    have he : report.1 = code := by simpa using List.find?_some hf
    rw [Option.bind_some, supplied?_gathered (List.mem_of_find?_eq_some hf), he, if_pos hc]

theorem codes_of_build :
    r.codes = ((offers catalog groups).map (·.code)).eraseDups ++
      (facts.reports.map (·.1)).filter fun code =>
        candidates catalog groups code = [] ∧ (default? catalog facts code).isSome := by
  rw [eq_extended_of_build h, codes_extended, codes_gathered, List.map_filterMap,
    ← List.filterMap_eq_filter, List.filterMap_map]
  congr 1
  refine List.filterMap_congr fun report hm => ?_
  rw [supplied?_gathered hm, Function.comp_apply, Option.guard]
  by_cases hc : candidates catalog groups report.1 = []
  · cases hd : default? catalog facts report.1 with
    | none => simp [hc]
    | some p => simp [hc, code_of_default? hd]
  · simp [hc]

/-- Every property of a built record is what its own reported text makes. -/
theorem ofReport_of_build (hc : catalog.IsUnambiguous) {p : Property} (hp : p ∈ r.properties) :
    ∃ d, catalog.byCode? p.code = some d ∧ Property.ofReport d p.raw = .ok p := by
  rw [eq_extended_of_build h, extended, List.mem_append, gathered] at hp
  rcases hp with hp | hp
  · rcases mem_offers _ _ hp with hp | hp
    · cases hp
    · obtain ⟨tag, _, ht⟩ := List.mem_filterMap.mp hp
      obtain ⟨d, hd, ho⟩ := offered?_eq_some_iff.mp ht
      rw [Property.code_of_ofReport ho, Property.raw_of_ofReport ho]
      exact ⟨d, Catalog.byCode?_of_byName? hc hd, ho⟩
  · obtain ⟨report, _, hs⟩ := List.mem_filterMap.mp hp
    obtain ⟨d, hd, ho⟩ := reported?_eq_some_iff.mp (supplied?_eq_some_iff.mp hs).2
    rw [Property.code_of_ofReport ho, Property.raw_of_ofReport ho, Catalog.code_of_byCode? hd]
    exact ⟨d, hd, ho⟩

end Built

/-- What a record says of a photo. For each code that tags offer properties for, it holds the chosen one of
these. File facts fill the codes that they know of and that the catalog has, and all other codes are without
a property. Each property is what its reported text makes, and the codes stand in the order in which tags
first gave them, those from file facts behind them. -/
structure Describes (catalog : Catalog) (groups : List TagGroup) (facts : Facts) (r : Record) : Prop where
  chosen : ∀ code, candidates catalog groups code ≠ [] →
    ∃ p, r.property? code = some p ∧ Chosen (candidates catalog groups code) p
  stated : ∀ code raw value, (code, raw, value) ∈ facts.stated → catalog.contains code →
    candidates catalog groups code = [] →
      ∃ p, r.property? code = some p ∧ p.raw = raw ∧ p.value = value
  absent : ∀ code, candidates catalog groups code = [] →
    (catalog.contains code → code ∉ facts.reports.map (·.1)) → r.property? code = none
  made : ∀ p ∈ r.properties,
    ∃ d, catalog.byCode? p.code = some d ∧ Property.ofReport d p.raw = .ok p
  ordered : r.codes = ((offers catalog groups).map (·.code)).eraseDups ++
    (facts.reports.map (·.1)).filter fun code =>
      candidates catalog groups code = [] ∧ catalog.contains code

section Standard

variable {codes : List Text} (h0 : 0 ≤ facts.size) (hs : facts.size < 2 ^ 63)
include h0 hs

/-- What file facts of a proper size state is their default, for all codes that are not left out. -/
theorem default?_of_stated {raw : Text} {value : Value} (hm : (code, raw, value) ∈ facts.stated)
    (hc : code ∉ codes) :
    ∃ p, default? (Catalog.standardWithout codes) facts code = some p ∧ p.raw = raw ∧ p.value = value := by
  obtain ⟨d, p, hd, hp, hv⟩ := Facts.exists_property_of_stated h0 hs hm
  have hr : (code, raw) ∈ facts.reports := by
    rw [facts.reports_eq_map_stated]
    exact List.mem_map_of_mem hm
  refine ⟨p, ?_, Property.raw_of_ofReport hp, hv⟩
  rw [default?, Facts.find?_reports hr, Option.bind_some, reported?_eq_some_iff]
  exact ⟨d, by rw [Catalog.byCode?_standardWithout, if_neg hc, hd], hp⟩

theorem isSome_default?_iff :
    (default? (Catalog.standardWithout codes) facts code).isSome ↔
      code ∈ facts.reports.map (·.1) ∧ (Catalog.standardWithout codes).contains code := by
  constructor
  · intro h
    obtain ⟨p, hp⟩ := Option.isSome_iff_exists.mp h
    obtain ⟨report, hr, hp⟩ := Option.bind_eq_some_iff.mp hp
    obtain ⟨d, hd, _⟩ := reported?_eq_some_iff.mp hp
    have he : report.1 = code := by simpa using List.find?_some hr
    rw [he] at hd
    exact ⟨List.mem_map.mpr ⟨report, List.mem_of_find?_eq_some hr, he⟩, Option.isSome_of_eq_some hd⟩
  · rintro ⟨hm, hc⟩
    rw [facts.reports_eq_map_stated, List.map_map] at hm
    obtain ⟨⟨code', raw, value⟩, hf, rfl⟩ := List.mem_map.mp hm
    obtain ⟨p, hp, _⟩ := default?_of_stated h0 hs hf (Catalog.contains_standardWithout.mp hc).1
    exact Option.isSome_of_eq_some hp

/-- The record of a photo describes it, whatever codes are left out of the standard catalog. -/
theorem describes_of_build
    (h : (build (Catalog.standardWithout codes) source groups facts).result = .ok r) :
    Describes (Catalog.standardWithout codes) groups facts r := by
  constructor
  · exact fun code hc => chosen_of_build h hc
  · intro code raw value hm hcon hc
    rw [property?_eq_default? h hc]
    exact default?_of_stated h0 hs hm (Catalog.contains_standardWithout.mp hcon).1
  · intro code hc hn
    rw [property?_eq_default? h hc, ← Option.not_isSome_iff_eq_none, isSome_default?_iff h0 hs]
    exact fun hd => hn hd.2 hd.1
  · exact fun p hp => ofReport_of_build h (Catalog.isUnambiguous_standardWithout codes) hp
  · rw [codes_of_build h]
    congr 1
    refine List.filter_congr fun code hm => ?_
    simp only [isSome_default?_iff h0 hs, hm, true_and]

end Standard

/-- Of two speeds the greater one is held, one that cannot be read is left out, and the date and the size are
those of the file. -/
theorem describes_two_speeds :
    Describes (Catalog.standardWithout ["ft", "fd", "ex", "fn"])
      [⟨"EXIF", [("ISOSpeedRatings", "100"), ("ISOSpeedRatings", "200"), ("ISOSpeedRatings", "high")]⟩]
      ⟨⟨2020, 1, 2, 3, 4, 5, 600000, by decide, by decide, by decide⟩, "ARW", "DSC0001", 24000000⟩
      ⟨"DSC0001.ARW",
        [⟨"is", "ISO Speed Ratings", "200", .integer 200, "iso200"⟩,
          ⟨dateCode, "Date/Time", "2020:01:02 03:04:05",
            .timestamp ⟨2020, 1, 2, 3, 4, 5, 0, by decide, by decide, by decide⟩, "01/02/2020 03:04"⟩,
          ⟨"sz", "File Size", "24000000", .long 24000000, "24000000"⟩]⟩ :=
  @describes_of_build _ _ "DSC0001.ARW" _ _ (by decide) (by decide) (by decide +kernel)

end PhotoNaming.Record
