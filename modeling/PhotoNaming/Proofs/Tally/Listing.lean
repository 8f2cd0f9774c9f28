import PhotoNaming.Proofs.Tally.Counting
import PhotoNaming.Proofs.Text.Sorted

/-! The listing of records that are counted. It has the rows with a count of at least two, by name and value,
and is the same in whatever order the records are counted, if no two properties share a name. -/
namespace PhotoNaming

/-- The report that a row is about. -/
def TallyRow.report (row : TallyRow) : Report := ⟨row.code, row.raw⟩

namespace Tally

variable {catalog : Catalog} {records others : List Record} {tally : Tally} {row other : TallyRow}
  {code : Text}

theorem tabulated_perm {seen more : List Report} (h : seen.Perm more) :
    (tabulated seen).Perm (tabulated more) := by
  have hkeys : seen.eraseDups.Perm more.eraseDups :=
    (List.perm_ext_iff_of_nodup (nodup_eraseDups seen) (nodup_eraseDups more)).mpr fun report => by
      rw [List.mem_eraseDups, List.mem_eraseDups, h.mem_iff]
  have hcount : (fun report => (report, seen.count report)) =
      fun report => (report, more.count report) := by
    funext report
    rw [h.count_eq report]
  rw [tabulated, tabulated, hcount]
  exact hkeys.map _

theorem rows_perm (h : others.Perm records) :
    ((ofRecords catalog others).rows catalog).Perm ((ofRecords catalog records).rows catalog) := by
  rw [rows, rows, ofRecords_eq, ofRecords_eq]
  exact (tabulated_perm (h.flatMap_right _)).map _

theorem mem_rows : row ∈ (ofRecords catalog records).rows catalog ↔
    (⟨row.code, row.raw⟩ : Report) ∈ allReports catalog records ∧
      row.count = (allReports catalog records).count ⟨row.code, row.raw⟩ ∧
      row.name = nameOf catalog row.code := by
  simp only [rows, ofRecords_eq, List.mem_map]
  constructor
  · rintro ⟨c, hc, rfl⟩
    exact ⟨(mem_tabulated.mp hc).1, (mem_tabulated.mp hc).2, rfl⟩
  · rintro ⟨hm, hc, hn⟩
    refine ⟨(⟨row.code, row.raw⟩, row.count), mem_tabulated.mpr ⟨hm, hc⟩, ?_⟩
    rw [Tally.row, ← hn]

/-- A row is known by its property and value. -/
theorem eq_of_mem_rows (h : row ∈ (ofRecords catalog records).rows catalog)
    (h' : other ∈ (ofRecords catalog records).rows catalog) (hc : row.code = other.code)
    (hr : row.raw = other.raw) : row = other := by
  obtain ⟨_, hcount, hname⟩ := mem_rows.mp h
  obtain ⟨_, hcount', hname'⟩ := mem_rows.mp h'
  rw [hc, hr, ← hcount'] at hcount
  rw [hc, ← hname'] at hname
  cases row
  cases other
  simp_all

theorem map_report_rows (catalog : Catalog) (records : List Record) :
    ((ofRecords catalog records).rows catalog).map (·.report) =
      (allReports catalog records).eraseDups := by
  rw [rows, ofRecords_eq, List.map_map, ← map_fst_tabulated]
  rfl

/-- No two codes of records are shown under one name. -/
def NamesApart (catalog : Catalog) (records : List Record) : Prop :=
  ∀ r ∈ records, ∀ s ∈ records, ∀ code ∈ r.codes, ∀ code' ∈ s.codes,
    nameOf catalog code = nameOf catalog code' → code = code'

/-- A catalog without repeated names keeps its properties apart. -/
theorem namesApart_of_contains (hn : (catalog.descriptors.map (·.name)).Nodup)
    (hr : ∀ r ∈ records, ∀ code ∈ r.codes, catalog.contains code) : NamesApart catalog records := by
  have found {code : Text} (hc : catalog.contains code) :
      ∃ d ∈ catalog.descriptors, d.code = code ∧ nameOf catalog code = d.name := by
    obtain ⟨d, hd⟩ := Option.isSome_iff_exists.mp hc
    exact ⟨d, List.mem_of_find?_eq_some hd, by simpa using List.find?_some hd, by rw [nameOf, hd]⟩
  intro r hm s hm' code hc code' hc' he
  obtain ⟨d, hd, rfl, hname⟩ := found (hr r hm code hc)
  obtain ⟨d', hd', rfl, hname'⟩ := found (hr s hm' code' hc')
  rw [List.inj_on_of_nodup_map hn hd hd' (by rw [← hname, he, hname'])]

theorem mem_codes_of_mem_allReports {report : Report} (h : report ∈ allReports catalog records) :
    ∃ r ∈ records, report.code ∈ r.codes := by
  obtain ⟨r, hr, hm⟩ := List.mem_flatMap.mp h
  obtain ⟨⟨p, hp, hc, _⟩, _⟩ := mem_reports.mp hm
  exact ⟨r, hr, List.mem_map.mpr ⟨p, hp, hc⟩⟩

theorem mem_codes (catalog : Catalog) : code ∈ tally.codes ↔ ∃ row ∈ tally.rows catalog, row.code = code := by
  simp [codes, rows, Tally.row]

theorem mem_repeated : row ∈ tally.repeated catalog code ↔
    row ∈ tally.rows catalog ∧ row.code = code ∧ 1 < row.count := by
  simp only [repeated, List.mem_filter, (List.mergeSort_perm _ _).mem_iff, decide_eq_true_eq, and_assoc]

theorem mem_listing : row ∈ tally.listing catalog ↔ row ∈ tally.rows catalog ∧ 1 < row.count := by
  simp only [listing, List.mem_flatMap, (List.mergeSort_perm _ _).mem_iff, mem_repeated,
    mem_codes catalog]
  constructor
  · rintro ⟨_, _, hm, _, hc⟩
    exact ⟨hm, hc⟩
  · rintro ⟨hm, hc⟩
    exact ⟨row.code, ⟨row, hm, rfl⟩, hm, rfl, hc⟩

theorem pairwise_lt_repeated (catalog : Catalog) (records : List Record) (code : Text) :
    ((ofRecords catalog records).repeated catalog code).Pairwise fun a b => a.raw < b.raw := by
  have hreports := nodup_eraseDups (allReports catalog records)
  rw [← map_report_rows, List.Nodup, List.pairwise_map] at hreports
  refine List.Pairwise.filter _ (Text.pairwise_lt_mergeSort_by TallyRow.raw (List.pairwise_map.mpr ?_))
  refine (hreports.filter _).imp_of_mem fun {a b} ha hb hne hraw => hne ?_
  rw [TallyRow.report, TallyRow.report, hraw, of_decide_eq_true (List.mem_filter.mp ha).2,
    of_decide_eq_true (List.mem_filter.mp hb).2]

theorem name_of_mem_rows (h : row ∈ tally.rows catalog) : row.name = nameOf catalog row.code := by
  obtain ⟨c, _, rfl⟩ := List.mem_map.mp h
  rfl

/-- Where names are not shared, no two rows of the listing have the same name and value. -/
theorem pairwise_lt_listing (hn : NamesApart catalog records) :
    ((ofRecords catalog records).listing catalog).Pairwise fun row other =>
      row.name < other.name ∨ row.name = other.name ∧ row.raw < other.raw := by
  have hcodes : ((ofRecords catalog records).codes.map (nameOf catalog)).Nodup := by
    have hdistinct : (ofRecords catalog records).codes.Nodup := nodup_eraseDups _
    refine List.pairwise_map.mpr (hdistinct.imp_of_mem fun {code code'} hm hm' hne he => hne ?_)
    obtain ⟨row, hrow, rfl⟩ := (mem_codes catalog).mp hm
    obtain ⟨row', hrow', rfl⟩ := (mem_codes catalog).mp hm'
    obtain ⟨r, hr, hc⟩ := mem_codes_of_mem_allReports (mem_rows.mp hrow).1
    obtain ⟨r', hr', hc'⟩ := mem_codes_of_mem_allReports (mem_rows.mp hrow').1
    exact hn r hr r' hr' _ hc _ hc' he
  rw [listing, List.pairwise_flatMap]
  refine ⟨fun code _ => (pairwise_lt_repeated catalog records code).imp_of_mem ?_,
    (Text.pairwise_lt_mergeSort_by _ hcodes).imp ?_⟩
  · intro row other hrow hother hlt
    obtain ⟨hrow, hc, _⟩ := mem_repeated.mp hrow
    obtain ⟨hother, hc', _⟩ := mem_repeated.mp hother
    exact .inr ⟨by rw [name_of_mem_rows hrow, name_of_mem_rows hother, hc, hc'], hlt⟩
  · intro code code' hlt row hrow other hother
    obtain ⟨hrow, hc, _⟩ := mem_repeated.mp hrow
    obtain ⟨hother, hc', _⟩ := mem_repeated.mp hother
    exact .inl (by rwa [name_of_mem_rows hrow, name_of_mem_rows hother, hc, hc'])

theorem listing_of_perm (hn : NamesApart catalog records) (h : others.Perm records) :
    (ofRecords catalog others).listing catalog = (ofRecords catalog records).listing catalog := by
  have hn' : NamesApart catalog others := fun r hr s hs => hn r (h.mem_iff.mp hr) s (h.mem_iff.mp hs)
  have nodup {rows : List TallyRow}
      (hp : rows.Pairwise fun a b => a.name < b.name ∨ a.name = b.name ∧ a.raw < b.raw) : rows.Nodup := by
    refine hp.imp ?_
    rintro a _ hlt rfl
    grind
  refine List.Perm.eq_of_pairwise ?_ (pairwise_lt_listing hn') (pairwise_lt_listing hn)
    ((List.perm_ext_iff_of_nodup (nodup (pairwise_lt_listing hn')) (nodup (pairwise_lt_listing hn))).mpr ?_)
  · intro a b _ _ hab hba
    grind
  · intro row
    rw [mem_listing, mem_listing, (rows_perm h).mem_iff]

end Tally

end PhotoNaming
