import PhotoNaming.Proofs.Catalog.Report
import PhotoNaming.Proofs.Tally.Merging
import PhotoNaming.Proofs.Tally.Ties

/-! What the ranking and the listing show. Each report that was counted has one row with its count, and the
rows stand in a strict order: in the ranking by count, code and first sight, in the listing by name and value. -/
namespace PhotoNaming

namespace Tally

/-- The number of records that have a report. -/
def occurrences (records : List Record) (report : Report) : Nat :=
  records.countP fun r => (r.property? report.code).map (·.raw) = some report.raw

/-- The row for a report that is counted among records: the display name of its property, and the number of
the records that have it. -/
structure IsRow (catalog : Catalog) (records : List Record) (row : TallyRow) : Prop where
  counted : catalog.isExcluded row.code = false
  name : ∃ d, catalog.byCode? row.code = some d ∧ row.name = d.name
  count : row.count = occurrences records row.report
  pos : 0 < row.count

variable {catalog : Catalog} {records : List Record} {row other : TallyRow}

theorem nodup_report_ranking (catalog : Catalog) (records : List Record) :
    (((ofRecords catalog records).ranking catalog).map (·.report)).Nodup := by
  have hperm : ((ofRecords catalog records).ranking catalog).Perm ((ofRecords catalog records).rows catalog) :=
    List.mergeSort_perm _ _
  rw [(hperm.map _).nodup_iff, map_report_rows]
  exact nodup_eraseDups _

/-- What is left out of the first rows has no greater count than they have. -/
theorem count_le_of_mem_drop (limit : Nat) {rows : List TallyRow}
    (h : rows.Pairwise (Outranks (allReports catalog records))) (hr : row ∈ rows.take limit)
    (ho : other ∈ rows.drop limit) : other.count ≤ row.count := by
  rw [← List.take_append_drop limit rows, List.pairwise_append] at h
  rcases h.2.2 row hr other ho with hlt | ⟨hcount, _⟩
  · exact hlt.le
  · exact hcount.ge

section Rows

variable (hr : ∀ r ∈ records, r.codes.Nodup ∧ ∀ code ∈ r.codes, catalog.contains code)
include hr

/-- Rows are made of the counted reports. -/
theorem mem_rows_iff : row ∈ (ofRecords catalog records).rows catalog ↔ IsRow catalog records row := by
  have hcount : (allReports catalog records).count row.report = _ :=
    count_allReports (fun r hm => (hr r hm).1) row.report
  rw [mem_rows]
  constructor
  · rintro ⟨hm, hc, hname⟩
    obtain ⟨r, hrm, hreport⟩ := List.mem_flatMap.mp hm
    have hx := (mem_reports.mp hreport).2
    have hpos := List.count_pos_iff.mpr hm
    obtain ⟨s, hs, hcode⟩ := mem_codes_of_mem_allReports hm
    obtain ⟨d, hd⟩ := Option.isSome_iff_exists.mp ((hr s hs).2 _ hcode)
    refine ⟨hx, ⟨d, hd, by rw [hname, nameOf, hd]⟩, ?_, hc ▸ hpos⟩
    rw [hc]
    refine hcount.trans ?_
    rw [show catalog.isExcluded row.report.code = false from hx]
    rfl
  · rintro ⟨hx, ⟨d, hd, hname⟩, hc, hpos⟩
    rw [show catalog.isExcluded row.report.code = false from hx] at hcount
    have he : row.count = (allReports catalog records).count row.report := hc.trans hcount.symm
    refine ⟨List.count_pos_iff.mp (he ▸ hpos), he, ?_⟩
    rw [hname, nameOf, hd]

theorem mem_ranking_iff : row ∈ (ofRecords catalog records).ranking catalog ↔ IsRow catalog records row :=
  mem_ranking.trans (mem_rows_iff hr)

theorem mem_listing_iff :
    row ∈ (ofRecords catalog records).listing catalog ↔ IsRow catalog records row ∧ 2 ≤ row.count := by
  rw [mem_listing, mem_rows_iff hr]
  rfl

end Rows

/-- However records of the standard catalog are counted in several tallies and these merged, the most frequent
rows of a tally are the first of all its rows, which stand in order and are each there once; what is not shown
has no greater count than what is. The listing has the rows with a count of at least two, by name and value. -/
theorem rankings_are_exact {ι : Type} [DecidableEq ι] (steps : List (Step ι))
    (hr : ∀ a r, .count a r ∈ steps → r.codes.Nodup ∧ ∀ code ∈ r.codes, Catalog.standard.contains code)
    (a : ι) :
    let tally := run .standard steps a
    let records := history steps a
    (∃ rows : List TallyRow,
      (∀ row, row ∈ rows ↔ IsRow .standard records row) ∧ (rows.map (·.report)).Nodup ∧
        rows.Pairwise (Outranks (allReports .standard records)) ∧
        ∀ limit : Nat, tally.top .standard limit = rows.take limit ∧
          ∀ shown ∈ tally.top .standard limit, ∀ omitted ∈ rows.drop limit, omitted.count ≤ shown.count) ∧
      (∀ row, row ∈ tally.listing .standard ↔ IsRow .standard records row ∧ 2 ≤ row.count) ∧
      (tally.listing .standard).Pairwise fun row other =>
        row.name < other.name ∨ row.name = other.name ∧ row.raw < other.raw := by
  intro tally records
  have ht : tally = ofRecords .standard records := congrFun (run_eq .standard steps) a
  have hrecords : ∀ r ∈ records, r.codes.Nodup ∧ ∀ code ∈ r.codes, Catalog.standard.contains code := by
    intro r hm
    obtain ⟨b, hb⟩ := exists_count_of_mem_history steps hm
    exact hr b r hb
  rw [ht]
  refine ⟨⟨_, fun row => mem_ranking_iff hrecords, nodup_report_ranking _ _, pairwise_ranking _ _, ?_⟩,
    fun row => mem_listing_iff hrecords, pairwise_lt_listing (namesApart_of_contains (by decide +kernel) fun r hm => (hrecords r hm).2)⟩
  intro limit
  exact ⟨rfl, fun shown hs omitted ho => count_le_of_mem_drop limit (pairwise_ranking _ _) hs ho⟩

/-- A make that is merged twice is listed, and one that is counted once is not. -/
theorem merged_make_is_listed :
    let sony : Record := ⟨"a.jpg", [⟨"mk", "Make", "Sony", .text "Sony", "Sony"⟩]⟩
    let canon : Record := ⟨"b.jpg", [⟨"mk", "Make", "Canon", .text "Canon", "Canon"⟩]⟩
    let steps : List (Step Nat) := [.count 0 canon, .count 1 sony, .merge 0 1, .merge 0 1]
    (∀ a r, .count a r ∈ steps → r.codes.Nodup ∧ ∀ code ∈ r.codes, Catalog.standard.contains code) ∧
      ⟨"mk", "Make", "Sony", 2⟩ ∈ (run .standard steps 0).listing .standard ∧
      ⟨"mk", "Make", "Canon", 1⟩ ∉ (run .standard steps 0).listing .standard := by
  intro sony canon steps
  have hr : ∀ a r, .count a r ∈ steps →
      r.codes.Nodup ∧ ∀ code ∈ r.codes, Catalog.standard.contains code := by
    intro a r hm
    simp only [steps, List.mem_cons, List.not_mem_nil, or_false, Step.count.injEq, reduceCtorEq] at hm
    rcases hm with ⟨_, rfl⟩ | ⟨_, rfl⟩
    · decide +kernel
    · decide +kernel
  have hlisting := (rankings_are_exact steps hr 0).2.1
  refine ⟨hr, (hlisting _).mpr ⟨⟨rfl, ⟨_, rfl, rfl⟩, by decide +kernel, by decide⟩, by decide⟩, fun h => ?_⟩
  exact absurd ((hlisting _).mp h).2 (by decide)

end Tally

end PhotoNaming
