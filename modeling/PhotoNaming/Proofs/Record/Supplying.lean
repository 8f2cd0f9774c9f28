import PhotoNaming.Proofs.Record.Scanning

/-! File facts as defaults. They come behind the properties that tags gave, in their own order, and only
for codes that the catalog has and no tag gave a property for. -/
namespace PhotoNaming

namespace Record

/-- The property that a report for a code makes. -/
def reported? (catalog : Catalog) (report : Text × Text) : Option Property :=
  (catalog.byCode? report.1).bind fun d => (Property.ofReport d report.2).toOption

/-- The property that a report adds to a record as a default. -/
def supplied? (catalog : Catalog) (r : Record) (report : Text × Text) : Option Property :=
  if r.contains report.1 then none else reported? catalog report

/-- The record with more properties behind its own. -/
def extended (r : Record) (properties : List Property) : Record :=
  { r with properties := r.properties ++ properties }

variable {catalog : Catalog} {r r' : Record} {report : Text × Text} {reports : List (Text × Text)}
  {p : Property}

@[simp] theorem extended_nil (r : Record) : r.extended [] = r := by
  simp [extended]

@[simp] theorem extended_extended (r : Record) (front back : List Property) :
    (r.extended front).extended back = r.extended (front ++ back) := by
  simp [extended]

theorem codes_extended (r : Record) (properties : List Property) :
    (r.extended properties).codes = r.codes ++ properties.map (·.code) := by
  simp [codes, extended]

theorem property?_extended (r : Record) (properties : List Property) (code : Text) :
    (r.extended properties).property? code =
      (r.property? code).or (properties.find? (·.code = code)) := by
  simp [property?, extended]

theorem put_eq_extended (h : p.code ∉ r.codes) : r.put p = r.extended [p] := by
  rw [put, if_neg (mt contains_iff.mp h), extended]

theorem reported?_eq_some_iff :
    reported? catalog report = some p ↔
      ∃ d, catalog.byCode? report.1 = some d ∧ Property.ofReport d report.2 = .ok p := by
  simp only [reported?, Option.bind_eq_some_iff, toOption_eq_some_iff]

theorem code_of_reported? (h : reported? catalog report = some p) : p.code = report.1 := by
  obtain ⟨d, hd, hp⟩ := reported?_eq_some_iff.mp h
  rw [Property.code_of_ofReport hp, Catalog.code_of_byCode? hd]

theorem supplied?_eq_some_iff :
    supplied? catalog r report = some p ↔ report.1 ∉ r.codes ∧ reported? catalog report = some p := by
  rw [supplied?, ← contains_iff]
  split <;> simp [*]

theorem code_of_supplied? (h : supplied? catalog r report = some p) : p.code = report.1 :=
  code_of_reported? (supplied?_eq_some_iff.mp h).2

/-- A report whose code is not among those added finds the extended record like the one before. -/
theorem supplied?_extended {added : List Property} (h : report.1 ∉ added.map (·.code)) :
    supplied? catalog (r.extended added) report = supplied? catalog r report := by
  have hc : (r.extended added).contains report.1 = r.contains report.1 := by
    rw [Bool.eq_iff_iff, contains_iff, contains_iff, codes_extended, List.mem_append]
    simp [h]
  rw [supplied?, hc, supplied?]

theorem supply_result (h : (supply catalog r report.1 report.2).result = .ok r') :
    r' = r.extended (supplied? catalog r report).toList := by
  rw [supply] at h
  rw [supplied?]
  by_cases hm : r.contains report.1
  · rw [if_pos hm] at h
    cases h
    simp [hm]
  · rw [if_neg hm] at h
    rw [if_neg hm, reported?]
    cases hd : catalog.byCode? report.1 with
    | none =>
      rw [hd] at h
      cases h
      simp
    | some d =>
      rw [hd] at h
      rw [Option.bind_some]
      cases hp : Property.ofReport d report.2 with
      | ok p =>
        have hc : p.code ∉ r.codes := by
          rw [Property.code_of_ofReport hp, Catalog.code_of_byCode? hd, ← contains_iff]
          exact hm
        simp only [hp] at h
        rw [← Except.ok.inj h, put_eq_extended hc]
        rfl
      | error fault =>
        cases fault with
        | unreadable fault =>
          simp only [hp] at h
          cases h
          exact r.extended_nil.symm
        | unwritable fault =>
          simp only [hp] at h
          cases h

/-- All reports add what each of them alone would add, if they are for different codes. -/
theorem supplyAll_result (hn : (reports.map (·.1)).Nodup)
    (h : (supplyAll catalog r reports).result = .ok r') :
    r' = r.extended (reports.filterMap (supplied? catalog r)) := by
  induction reports generalizing r with
  | nil =>
    cases h
    simp
  | cons report reports ih =>
    rw [List.map_cons, List.nodup_cons] at hn
    obtain ⟨middle, hm, h⟩ := Logged.result_bind_eq_ok_iff.mp h
    rw [supply_result hm] at h
    have hl (next : Text × Text) (hmem : next ∈ reports) :
        supplied? catalog (r.extended (supplied? catalog r report).toList) next =
          supplied? catalog r next := by
      refine supplied?_extended fun hc => hn.1 ?_
      obtain ⟨p, hp, he⟩ := List.mem_map.mp hc
      rw [← code_of_supplied? (Option.mem_toList.mp hp), he]
      exact List.mem_map_of_mem hmem
    rw [ih hn.2 h, extended_extended, List.filterMap_congr hl]
    cases hs : supplied? catalog r report with
    | none => simp [hs]
    | some p => simp [hs]

/-- Among what all reports add, only the report for a code matters for that code. -/
theorem find?_supplied (hn : (reports.map (·.1)).Nodup) (code : Text) :
    (reports.filterMap (supplied? catalog r)).find? (·.code = code) =
      (reports.find? (·.1 = code)).bind (supplied? catalog r) := by
  induction reports with
  | nil => rfl
  | cons report reports ih =>
    rw [List.map_cons, List.nodup_cons] at hn
    rw [List.filterMap_cons, List.find?_cons]
    by_cases hc : report.1 = code
    · have hrest : reports.find? (·.1 = code) = none := by
        rw [List.find?_eq_none]
        rintro other ho he
        exact hn.1 (List.mem_map.mpr ⟨other, ho, (of_decide_eq_true he).trans hc.symm⟩)
      cases hs : supplied? catalog r report with
      | none => simp [ih hn.2, hrest, hc, hs]
      | some p => simp [code_of_supplied? hs, hc, hs]
    · cases hs : supplied? catalog r report with
      | none => simp [ih hn.2, hc]
      | some p => simp [code_of_supplied? hs, hc, ih hn.2]

/-- Reports that all can be written come to a record. -/
theorem exists_supplyAll (hw : ∀ report ∈ reports, ∀ d fault, catalog.byCode? report.1 = some d →
    Property.ofReport d report.2 ≠ .error (.unwritable fault)) :
    ∃ r', (supplyAll catalog r reports).result = .ok r' := by
  induction reports generalizing r with
  | nil => exact ⟨r, rfl⟩
  | cons report reports ih =>
    rw [List.forall_mem_cons] at hw
    have hs : ∃ middle, (supply catalog r report.1 report.2).result = .ok middle := by
      rw [supply]
      split
      · exact ⟨r, rfl⟩
      · split
        · exact ⟨r, rfl⟩
        · rename_i d hd
          split
          · exact ⟨_, rfl⟩
          · exact absurd ‹_› (hw.1 d _ hd)
          · exact ⟨r, rfl⟩
    obtain ⟨middle, hm⟩ := hs
    obtain ⟨r', hr⟩ := ih (r := middle) hw.2
    exact ⟨r', Logged.result_bind_eq_ok_iff.mpr ⟨middle, hm, hr⟩⟩

end Record

end PhotoNaming
