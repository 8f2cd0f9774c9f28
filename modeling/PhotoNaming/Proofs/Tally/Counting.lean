import PhotoNaming.Proofs.Record.Offering
import PhotoNaming.Tally

/-! What a tally holds. Records counted one after the other leave each report with the number of times it
came up, in the order in which reports first came up. -/
namespace PhotoNaming.Tally

section Adding

variable {counts : List (Report × Nat)} {report other : Report}

theorem added_of_mem (h : report ∈ counts.map (·.1)) (n : Nat) :
    added counts report n =
      counts.map fun c => if c.1 = report then (c.1, c.2 + n) else (c.1, c.2) := by
  rw [added, if_pos]
  rw [List.any_eq_true]
  obtain ⟨c, hc, he⟩ := List.mem_map.mp h
  exact ⟨c, hc, by simpa using he⟩

theorem added_of_notMem (h : report ∉ counts.map (·.1)) (n : Nat) :
    added counts report n = counts ++ [(report, n)] := by
  rw [added, if_neg]
  rw [List.any_eq_true]
  rintro ⟨c, hc, he⟩
  exact h (List.mem_map.mpr ⟨c, hc, of_decide_eq_true he⟩)

theorem mem_map_fst_added {n : Nat} :
    other ∈ (added counts report n).map (·.1) ↔ other = report ∨ other ∈ counts.map (·.1) := by
  by_cases h : report ∈ counts.map (·.1)
  · have hsame : (added counts report n).map (·.1) = counts.map (·.1) := by
      rw [added_of_mem h, List.map_map]
      apply List.map_congr_left
      intro c _
      rw [Function.comp_apply]
      split <;> rfl
    rw [hsame]
    exact ⟨.inr, fun ho => ho.elim (fun he => he ▸ h) id⟩
  · rw [added_of_notMem h, List.map_append, List.mem_append, or_comm]
    simp

end Adding

/-- Reports with the number of times each occurs, in the order in which they first do. -/
def tabulated (seen : List Report) : List (Report × Nat) :=
  seen.eraseDups.map fun report => (report, seen.count report)

variable {seen : List Report}

theorem map_fst_tabulated (seen : List Report) : (tabulated seen).map (·.1) = seen.eraseDups := by
  rw [tabulated, List.map_map]
  exact List.map_id _

theorem mem_tabulated {c : Report × Nat} :
    c ∈ tabulated seen ↔ c.1 ∈ seen ∧ c.2 = seen.count c.1 := by
  simp only [tabulated, List.mem_map, List.mem_eraseDups]
  constructor
  · rintro ⟨report, hm, rfl⟩
    exact ⟨hm, rfl⟩
  · rintro ⟨hm, he⟩
    exact ⟨c.1, hm, by rw [← he]⟩

theorem added_tabulated (seen : List Report) (report : Report) :
    added (tabulated seen) report 1 = tabulated (seen ++ [report]) := by
  have hkey : report ∈ (tabulated seen).map (·.1) ↔ report ∈ seen := by
    rw [map_fst_tabulated, List.mem_eraseDups]
  by_cases hm : report ∈ seen
  · rw [added_of_mem (hkey.mpr hm), tabulated, tabulated, eraseDups_concat_of_mem hm, List.map_map]
    apply List.map_congr_left
    intro other _
    by_cases he : other = report
    · simp [he]
    · simp [he, Ne.symm he]
  · rw [added_of_notMem (mt hkey.mp hm), tabulated, tabulated, eraseDups_concat_of_notMem hm,
      List.map_append]
    congr 1
    · apply List.map_congr_left
      intro other ho
      have hne : report ≠ other := by
        rintro rfl
        exact hm (List.mem_eraseDups.mp ho)
      simp [hne]
    · simp [List.count_eq_zero_of_not_mem hm]

/-- Reports counted one after the other. -/
theorem foldl_added (seen more : List Report) :
    more.foldl (added · · 1) (tabulated seen) = tabulated (seen ++ more) := by
  induction more generalizing seen with
  | nil => simp
  | cons report more ih =>
    rw [List.foldl_cons, added_tabulated, ih, List.append_assoc]
    rfl

/-- What counting records one after the other comes to. -/
def ofRecords (catalog : Catalog) (records : List Record) : Tally :=
  records.foldl (count catalog) .empty

/-- The counted reports of records, one record after the other. -/
def allReports (catalog : Catalog) (records : List Record) : List Report :=
  records.flatMap (reports catalog)

variable (catalog : Catalog) (records : List Record)

theorem ofRecords_eq :
    ofRecords catalog records = ⟨records.length, tabulated (allReports catalog records)⟩ := by
  induction records using List.reverseRecOn with
  | nil => rfl
  | append_singleton records r ih =>
    rw [ofRecords, List.foldl_append, List.foldl_cons, List.foldl_nil, ← ofRecords, ih, count,
      foldl_added]
    simp [allReports]

variable {catalog records}

/-- The number that a tally holds for a report. -/
theorem countOf_ofRecords (report : Report) :
    (ofRecords catalog records).countOf report = (allReports catalog records).count report := by
  rw [countOf, ofRecords_eq]
  generalize allReports catalog records = seen
  dsimp only
  cases hf : (tabulated seen).find? (·.1 = report) with
  | none =>
    rw [List.find?_eq_none] at hf
    refine (List.count_eq_zero_of_not_mem fun hm => ?_).symm
    exact hf (report, seen.count report) (mem_tabulated.mpr ⟨hm, rfl⟩) (by simp)
  | some c =>
    have hc := (mem_tabulated.mp (List.mem_of_find?_eq_some hf)).2
    have he : c.1 = report := by simpa using List.find?_some hf
    rw [Option.map_some, Option.getD_some, hc, he]

theorem mem_reports {r : Record} {report : Report} :
    report ∈ reports catalog r ↔
      (∃ p ∈ r.properties, p.code = report.code ∧ p.raw = report.raw) ∧
        catalog.isExcluded report.code = false := by
  simp only [reports, List.mem_map, List.mem_filter, Bool.not_eq_true']
  constructor
  · rintro ⟨p, ⟨hp, hx⟩, rfl⟩
    exact ⟨⟨p, hp, rfl, rfl⟩, hx⟩
  · rintro ⟨⟨p, hp, hc, hr⟩, hx⟩
    exact ⟨p, ⟨hp, hc ▸ hx⟩, by rw [hc, hr]⟩

/-- A record with one property for each code counts a report at most once. -/
theorem count_reports {r : Record} (hr : r.codes.Nodup) (report : Report) :
    (reports catalog r).count report =
      if catalog.isExcluded report.code = false ∧
        (r.property? report.code).map (·.raw) = some report.raw then 1 else 0 := by
  have hn : (reports catalog r).Nodup := by
    refine List.Nodup.of_map (·.code) ?_
    rw [reports, List.map_map]
    exact hr.sublist (List.filter_sublist.map _)
  have hiff : (∃ p ∈ r.properties, p.code = report.code ∧ p.raw = report.raw) ↔
      (r.property? report.code).map (·.raw) = some report.raw := by
    rw [Option.map_eq_some_iff]
    constructor
    · rintro ⟨p, hp, hc, hraw⟩
      have hs : (r.property? report.code).isSome := List.find?_isSome.mpr ⟨p, hp, by simpa using hc⟩
      obtain ⟨q, hq⟩ := Option.isSome_iff_exists.mp hs
      have he : q = p := List.inj_on_of_nodup_map hr (Record.mem_of_property? hq) hp
        ((Record.code_of_property? hq).trans hc.symm)
      exact ⟨p, he ▸ hq, hraw⟩
    · rintro ⟨p, hp, hraw⟩
      exact ⟨p, Record.mem_of_property? hp, Record.code_of_property? hp, hraw⟩
  rw [hn.count]
  exact if_congr (mem_reports.trans (by rw [hiff, and_comm])) rfl rfl

/-- A tally holds the number of the records that have the report. -/
theorem count_allReports (hr : ∀ r ∈ records, r.codes.Nodup) (report : Report) :
    (allReports catalog records).count report =
      if catalog.isExcluded report.code then 0
      else records.countP fun r => (r.property? report.code).map (·.raw) = some report.raw := by
  induction records with
  | nil => simp [allReports]
  | cons r records ih =>
    have ih := ih fun s hs => hr s (by simp [hs])
    rw [allReports, List.flatMap_cons, List.count_append, ← allReports, ih,
      count_reports (hr r (by simp)), List.countP_cons]
    cases catalog.isExcluded report.code with
    | true => simp
    | false => simp [Nat.add_comm]

/-- Nothing is held that is left out or has not come up. -/
theorem of_mem_counts {c : Report × Nat} (h : c ∈ (ofRecords catalog records).counts) :
    catalog.isExcluded c.1.code = false ∧ 0 < c.2 := by
  rw [ofRecords_eq, mem_tabulated] at h
  obtain ⟨hm, hc⟩ := h
  obtain ⟨r, _, hr⟩ := List.mem_flatMap.mp hm
  exact ⟨(mem_reports.mp hr).2, hc ▸ List.count_pos_iff.mpr hm⟩

end PhotoNaming.Tally
