import PhotoNaming.Catalog.Standard
import PhotoNaming.Proofs.Tally.Listing
import Mathlib.Data.List.Forall2

/-! Reports on records that are counted in another order. The listing is the same, and so are the properties
and counts of the ranking; only values of one property that tie for a count may change places there, and they
stand in the order in which they were first counted. -/
namespace PhotoNaming.Tally

/-- One row is ranked before another one: its count is greater, or else its code is less, or else its value
came up earlier among the reports that were counted. -/
def Outranks (seen : List Report) (row other : TallyRow) : Prop :=
  other.count < row.count ∨ row.count = other.count ∧
    (row.code < other.code ∨ row.code = other.code ∧ seen.idxOf row.report < seen.idxOf other.report)

variable {catalog : Catalog} {records others : List Record} {tally : Tally} {row other : TallyRow}

section Ranking

/-- Whether a row may come before another one in a ranking. -/
def ranks (a b : TallyRow) : Bool :=
  decide (b.count < a.count) || (a.count = b.count && decide (¬ b.code < a.code))

theorem ranks_iff {a b : TallyRow} :
    ranks a b ↔ b.count < a.count ∨ a.count = b.count ∧ ¬ b.code < a.code := by
  simp [ranks]

theorem ranks_trans (a b c : TallyRow) (hab : ranks a b) (hbc : ranks b c) : ranks a c := by
  rw [ranks_iff] at *
  grind

theorem ranks_total (a b : TallyRow) : (ranks a b || ranks b a) = true := by
  rw [Bool.or_eq_true, ranks_iff, ranks_iff]
  grind

/-- Another value of the property has been seen as often. -/
def IsTied (catalog : Catalog) (tally : Tally) (row : TallyRow) : Prop :=
  ∃ other ∈ tally.rows catalog, other.code = row.code ∧ other.count = row.count ∧ other.raw ≠ row.raw

/-- What a row of one ranking has in common with the row in its place in another one: the property, the
count, and also the value unless that is tied. -/
structure Corresponds (catalog : Catalog) (tally : Tally) (row' row : TallyRow) : Prop where
  code : row'.code = row.code
  name : row'.name = row.name
  count : row'.count = row.count
  value : ¬ tally.IsTied catalog row → row' = row

theorem map_ranking_of_perm (h : others.Perm records) :
    ((ofRecords catalog others).ranking catalog).map (fun row => (row.code, row.count)) =
      ((ofRecords catalog records).ranking catalog).map fun row => (row.code, row.count) := by
  have sorted (records : List Record) :
      (((ofRecords catalog records).ranking catalog).map fun row => (row.code, row.count)).Pairwise
        fun a b => b.2 < a.2 ∨ a.2 = b.2 ∧ ¬ b.1 < a.1 := by
    rw [List.pairwise_map]
    exact (List.pairwise_mergeSort ranks_trans ranks_total _).imp ranks_iff.mp
  refine List.Perm.eq_of_pairwise ?_ (sorted others) (sorted records) ?_
  · rintro ⟨code, n⟩ ⟨code', n'⟩ - - hab hba
    dsimp only at hab hba
    grind
  · exact (((List.mergeSort_perm _ _).trans (rows_perm h)).trans (List.mergeSort_perm _ _).symm).map _

theorem mem_ranking : row ∈ tally.ranking catalog ↔ row ∈ tally.rows catalog :=
  (List.mergeSort_perm _ _).mem_iff

theorem ranking_corresponds (h : others.Perm records) :
    List.Forall₂ (Corresponds catalog (ofRecords catalog records))
      ((ofRecords catalog others).ranking catalog) ((ofRecords catalog records).ranking catalog) := by
  have hmap :
      ((ofRecords catalog others).ranking catalog).map (fun row => (row.code, row.count)) =
        ((ofRecords catalog records).ranking catalog).map fun row => (row.code, row.count) :=
    map_ranking_of_perm h
  have hlength := congrArg List.length hmap
  rw [List.length_map, List.length_map] at hlength
  refine List.forall₂_iff_get.mpr ⟨hlength, fun i hi hi' => ?_⟩
  have hrow' := (rows_perm h).mem_iff.mp (mem_ranking.mp (List.get_mem _ ⟨i, hi⟩))
  have hrow := mem_ranking.mp (List.get_mem ((ofRecords catalog records).ranking catalog) ⟨i, hi'⟩)
  have hi? := congrArg (·[i]?) hmap
  simp only [List.getElem?_map, List.getElem?_eq_getElem hi, List.getElem?_eq_getElem hi',
    Option.map_some, Option.some.injEq, Prod.mk.injEq] at hi?
  simp only [List.get_eq_getElem] at hrow hrow' ⊢
  generalize ((ofRecords catalog others).ranking catalog)[i] = row' at *
  generalize ((ofRecords catalog records).ranking catalog)[i] = row at *
  refine ⟨hi?.1, ?_, hi?.2, fun htie => ?_⟩
  · rw [(mem_rows.mp hrow').2.2, (mem_rows.mp hrow).2.2, hi?.1]
  · refine eq_of_mem_rows hrow' hrow hi?.1 ?_
    by_contra hne
    exact htie ⟨row', hrow', hi?.1, hi?.2, hne⟩

theorem top_corresponds (h : others.Perm records) (limit : Int) :
    List.Forall₂ (Corresponds catalog (ofRecords catalog records))
      ((ofRecords catalog others).top catalog limit) ((ofRecords catalog records).top catalog limit) := by
  have hr : List.Forall₂ (Corresponds catalog (ofRecords catalog records))
      ((ofRecords catalog others).ranking catalog) ((ofRecords catalog records).ranking catalog) :=
    ranking_corresponds h
  cases limit with
  | ofNat limit => exact List.forall₂_take limit hr
  | negSucc n =>
    rw [top, top, hr.length_eq]
    exact List.forall₂_take _ hr

theorem top_of_untied (h : others.Perm records) (limit : Int)
    (hu : ∀ row ∈ (ofRecords catalog records).top catalog limit,
      ¬ (ofRecords catalog records).IsTied catalog row) :
    (ofRecords catalog others).top catalog limit = (ofRecords catalog records).top catalog limit := by
  have run {rows' rows : List TallyRow}
      (hc : List.Forall₂ (Corresponds catalog (ofRecords catalog records)) rows' rows)
      (hu : ∀ row ∈ rows, ¬ (ofRecords catalog records).IsTied catalog row) : rows' = rows := by
    induction hc with
    | nil => rfl
    | cons hrow _ ih =>
      rw [hrow.value (hu _ (by simp)), ih fun row hm => hu row (by simp [hm])]
  exact run (top_corresponds h limit) hu

/-- Rows of one property with one count stay in the order in which they were counted. -/
theorem filter_ranking (catalog : Catalog) (tally : Tally) (code : Text) (n : Nat) :
    (tally.ranking catalog).filter (fun row => row.code = code ∧ row.count = n) =
      (tally.rows catalog).filter fun row => row.code = code ∧ row.count = n := by
  have hsub : ((tally.rows catalog).filter fun row => row.code = code ∧ row.count = n).Sublist
      (tally.ranking catalog) := by
    refine List.sublist_mergeSort ranks_trans ranks_total ?_ List.filter_sublist
    rw [List.pairwise_filter]
    refine List.pairwise_of_forall fun a b ha hb => ?_
    rw [decide_eq_true_eq] at ha hb
    exact ranks_iff.mpr (.inr ⟨by rw [ha.2, hb.2], by rw [ha.1, hb.1]; exact List.lt_irrefl _⟩)
  have hfilter := hsub.filter fun row => decide (row.code = code ∧ row.count = n)
  rw [List.filter_eq_self.mpr fun row hrow => (List.mem_filter.mp hrow).2] at hfilter
  exact (hfilter.eq_of_length ((List.mergeSort_perm _ _).filter _).length_eq.symm).symm

/-- Rows come in the order in which their reports were first counted. -/
theorem pairwise_rows (catalog : Catalog) (records : List Record) :
    ((ofRecords catalog records).rows catalog).Pairwise fun row other =>
      (allReports catalog records).idxOf row.report < (allReports catalog records).idxOf other.report := by
  have h := pairwise_idxOf_eraseDups (allReports catalog records)
  rw [← map_report_rows, List.pairwise_map] at h
  exact h

/-- In the ranking every row outranks those behind it. -/
theorem pairwise_ranking (catalog : Catalog) (records : List Record) :
    ((ofRecords catalog records).ranking catalog).Pairwise (Outranks (allReports catalog records)) := by
  rw [List.pairwise_iff_forall_sublist]
  intro row other hsub
  have hranks := List.pairwise_iff_forall_sublist.mp
    (List.pairwise_mergeSort ranks_trans ranks_total ((ofRecords catalog records).rows catalog)) hsub
  rcases ranks_iff.mp hranks with hlt | ⟨hcount, hcode⟩
  · exact .inl hlt
  refine .inr ⟨hcount, ?_⟩
  by_cases he : row.code = other.code
  · have htied := hsub.filter fun r => decide (r.code = row.code ∧ r.count = row.count)
    rw [filter_ranking, List.filter_eq_self.mpr (by simp [he, hcount])] at htied
    exact .inr ⟨he, List.pairwise_iff_forall_sublist.mp (pairwise_rows catalog records)
      (htied.trans List.filter_sublist)⟩
  · exact .inl (by grind)

/-- Among tied values the ranking begins with the one that was counted first. -/
theorem find?_ranking (catalog : Catalog) (tally : Tally) (code : Text) (n : Nat) :
    (tally.ranking catalog).find? (fun row => row.code = code ∧ row.count = n) =
      (tally.rows catalog).find? fun row => row.code = code ∧ row.count = n := by
  rw [← List.head?_filter, ← List.head?_filter, filter_ranking]

theorem exists_rows_cons (catalog : Catalog) (r : Record) (records : List Record) :
    ∃ back, (ofRecords catalog (r :: records)).rows catalog =
      (reports catalog r).eraseDups.map (fun report =>
        Tally.row catalog report ((allReports catalog (r :: records)).count report)) ++ back := by
  have hsplit : allReports catalog (r :: records) =
      reports catalog r ++ allReports catalog records := by
    rw [allReports, List.flatMap_cons, allReports]
  have hdups : (allReports catalog (r :: records)).eraseDups = (reports catalog r).eraseDups ++
      ((allReports catalog records).removeAll (reports catalog r)).eraseDups := by
    rw [hsplit, List.eraseDups_append]
  rw [rows, ofRecords_eq, tabulated, List.map_map, hdups, List.map_append]
  exact ⟨_, rfl⟩

/-- When a record is counted first, each of its values comes before those that tie with it. -/
theorem find?_ranking_of_first (records : List Record) {r : Record} (hr : r.codes.Nodup) {report : Report}
    (hm : report ∈ reports catalog r) :
    ((ofRecords catalog (r :: records)).ranking catalog).find? (fun row => row.code = report.code ∧
        row.count = (allReports catalog (r :: records)).count report) =
      some (Tally.row catalog report ((allReports catalog (r :: records)).count report)) := by
  obtain ⟨back, hrows⟩ := exists_rows_cons catalog r records
  have unique {report' : Report} (hm' : report' ∈ reports catalog r)
      (hc : report'.code = report.code) : report' = report := by
    obtain ⟨⟨p, hp, hpc, hpr⟩, _⟩ := mem_reports.mp hm
    obtain ⟨⟨q, hq, hqc, hqr⟩, _⟩ := mem_reports.mp hm'
    obtain rfl := List.inj_on_of_nodup_map hr hq hp (by rw [hqc, hpc, hc])
    cases report
    cases report'
    simp_all
  rw [find?_ranking, hrows, List.find?_append]
  cases hf : ((reports catalog r).eraseDups.map fun report =>
      Tally.row catalog report ((allReports catalog (r :: records)).count report)).find?
        fun row => row.code = report.code ∧
          row.count = (allReports catalog (r :: records)).count report with
  | none =>
    rw [List.find?_eq_none] at hf
    exact absurd (by simp [Tally.row])
      (hf _ (List.mem_map_of_mem (List.mem_eraseDups.mpr hm)))
  | some found =>
    obtain ⟨report', hm', rfl⟩ := List.mem_map.mp (List.mem_of_find?_eq_some hf)
    have hc := List.find?_some hf
    rw [decide_eq_true_eq] at hc
    rw [unique (List.mem_eraseDups.mp hm') hc.1, Option.some_or]

/-- A value that ties with one of the first rows takes its place among them when it is counted earlier. -/
theorem not_isTied_of_forall_top (hr : ∀ r ∈ records, r.codes.Nodup) {limit : Nat}
    (ht : ∀ others : List Record, others.Perm records →
      (ofRecords catalog others).top catalog limit = (ofRecords catalog records).top catalog limit)
    (hrow : row ∈ (ofRecords catalog records).top catalog limit) :
    ¬ (ofRecords catalog records).IsTied catalog row := by
  have first {report : Report} (hm : report ∈ allReports catalog records)
      (hc : report.code = row.code) (hn : (allReports catalog records).count report = row.count) :
      ((ofRecords catalog records).top catalog limit).find?
          (fun other => other.code = row.code ∧ other.count = row.count) =
        some (Tally.row catalog report row.count) := by
    obtain ⟨r, hmem, hreport⟩ := List.mem_flatMap.mp hm
    have hperm := (List.perm_cons_erase hmem).symm
    have hreports : (allReports catalog (r :: records.erase r)).Perm (allReports catalog records) :=
      hperm.flatMap_right _
    have hfind := find?_ranking_of_first (records.erase r) (hr r hmem) hreport
    rw [hreports.count_eq, hn, hc] at hfind
    have hs : (((ofRecords catalog records).top catalog limit).find?
        fun other => other.code = row.code ∧ other.count = row.count).isSome :=
      List.find?_isSome.mpr ⟨row, hrow, by simp⟩
    obtain ⟨found, hfound⟩ := Option.isSome_iff_exists.mp hs
    have htop : ((ofRecords catalog (r :: records.erase r)).ranking catalog).take limit =
        (ofRecords catalog records).top catalog limit := ht _ hperm
    rw [← List.take_append_drop limit ((ofRecords catalog (r :: records.erase r)).ranking catalog),
      List.find?_append, htop, hfound, Option.some_or] at hfind
    rw [hfound, hfind]
  rintro ⟨other, ho, hc, hn, hne⟩
  obtain ⟨hm, hcount, _⟩ := mem_rows.mp (mem_ranking.mp (List.mem_of_mem_take hrow))
  obtain ⟨hm', hcount', _⟩ := mem_rows.mp ho
  have hfirst := first hm rfl hcount.symm
  rw [first hm' hc (hcount'.symm.trans hn), Option.some.injEq] at hfirst
  exact hne (TallyRow.mk.inj hfirst).2.2.1

theorem pairwise_top (catalog : Catalog) (records : List Record) (limit : Int) :
    ((ofRecords catalog records).top catalog limit).Pairwise (Outranks (allReports catalog records)) := by
  cases limit with
  | ofNat limit => exact (pairwise_ranking catalog records).sublist (List.take_sublist _ _)
  | negSucc n => exact (pairwise_ranking catalog records).sublist (List.take_sublist _ _)

end Ranking

/-- The order in which records are counted is seen only in which of the values of one property with one
count come first among the most frequent ones, and these are the ones that were counted first. There, but for
such ties, and in the listing reports agree; and the most frequent values are the same for every order only if
none of them is tied. -/
theorem reports_agree_but_for_ties (hn : NamesApart catalog records)
    (hr : ∀ r ∈ records, r.codes.Nodup) :
    let tally := ofRecords catalog records
    (∀ others : List Record, others.Perm records →
      (ofRecords catalog others).listing catalog = tally.listing catalog ∧
      (∀ limit, List.Forall₂ (Corresponds catalog tally)
        ((ofRecords catalog others).top catalog limit) (tally.top catalog limit)) ∧
      (∀ limit, ((ofRecords catalog others).top catalog limit).Pairwise
        (Outranks (allReports catalog others))) ∧
      ((∀ row ∈ tally.top catalog topSize, ¬ tally.IsTied catalog row) →
        (ofRecords catalog others).report catalog = tally.report catalog)) ∧
    ((∀ others : List Record, others.Perm records →
        (ofRecords catalog others).top catalog topSize = tally.top catalog topSize) ↔
      ∀ row ∈ tally.top catalog topSize, ¬ tally.IsTied catalog row) := by
  intro tally
  refine ⟨fun others h => ⟨listing_of_perm hn h, top_corresponds h, pairwise_top catalog others, fun hu => ?_⟩, ?_⟩
  · rw [report, report, top_of_untied h topSize hu, listing_of_perm hn h]
  · exact ⟨fun ht _ hrow => not_isTied_of_forall_top hr ht hrow,
      fun hu _ h => top_of_untied h topSize hu⟩

/-- A photo of which only the make is known. -/
private def ofMake (source make : Text) : Record := ⟨source, [⟨"mk", "Make", make, .text make, make⟩]⟩

theorem reports_agree_on_three_makes :
    let records := [ofMake "a.jpg" "Sony", ofMake "b.jpg" "Canon", ofMake "c.jpg" "Sony"]
    let others := [ofMake "b.jpg" "Canon", ofMake "c.jpg" "Sony", ofMake "a.jpg" "Sony"]
    NamesApart .standard records ∧ (∀ r ∈ records, r.codes.Nodup) ∧ others.Perm records ∧
      (ofRecords .standard others).report .standard = (ofRecords .standard records).report .standard := by
  intro records others
  have hn : NamesApart .standard records :=
    namesApart_of_contains (by decide +kernel) (by decide +kernel)
  have hr : ∀ r ∈ records, r.codes.Nodup := by decide +kernel
  have hp : others.Perm records := by decide +kernel
  have hrows : (ofRecords .standard records).rows .standard =
      [⟨"mk", "Make", "Sony", 2⟩, ⟨"mk", "Make", "Canon", 1⟩] := by decide +kernel
  refine ⟨hn, hr, hp, (reports_agree_but_for_ties hn hr).1 others hp |>.2.2.2 ?_⟩
  rintro row hrow ⟨other, ho, -, hcount, hne⟩
  have hrow := mem_ranking.mp (List.mem_of_mem_take hrow)
  rw [hrows] at hrow ho
  simp only [List.mem_cons, List.not_mem_nil, or_false] at hrow ho
  rcases hrow with rfl | rfl
  · rcases ho with rfl | rfl
    · exact hne rfl
    · cases hcount
  · rcases ho with rfl | rfl
    · cases hcount
    · exact hne rfl

private theorem report_of_two_makes {first second : Text}
    (h : (ofRecords .standard records).rows .standard =
      [⟨"mk", "Make", first, 1⟩, ⟨"mk", "Make", second, 1⟩]) :
    (ofRecords .standard records).report .standard =
      Text.joinWith ['\n'] ["Top 10:", "=========", "Property\tValue\tCount",
        (TallyRow.mk "mk" "Make" first 1).line, (TallyRow.mk "mk" "Make" second 1).line,
        "=========", "Statistics:", "=========", "Property\tValue\tCount"] ++ ['\n'] := by
  have hranking : (ofRecords .standard records).ranking .standard =
      [⟨"mk", "Make", first, 1⟩, ⟨"mk", "Make", second, 1⟩] := by
    rw [ranking, h]
    exact List.mergeSort_of_pairwise (by simp)
  have hlisting : (ofRecords .standard records).listing .standard = [] := by
    rw [List.eq_nil_iff_forall_not_mem]
    intro row hm
    obtain ⟨hrow, hc⟩ := mem_listing.mp hm
    rw [h] at hrow
    simp only [List.mem_cons, List.not_mem_nil, or_false] at hrow
    rcases hrow with rfl | rfl <;> exact absurd hc (Nat.lt_irrefl 1)
  have htop : (ofRecords .standard records).top .standard topSize =
      [⟨"mk", "Make", first, 1⟩, ⟨"mk", "Make", second, 1⟩] := congrArg (List.take topSize) hranking
  rw [report, htop, hlisting]
  rfl

/-- Two makes that are seen once each stand in the order in which they were counted. -/
theorem reports_of_exchanged_makes :
    [ofMake "b.jpg" "Canon", ofMake "a.jpg" "Sony"].Perm
      [ofMake "a.jpg" "Sony", ofMake "b.jpg" "Canon"] ∧
    (ofRecords .standard [ofMake "a.jpg" "Sony", ofMake "b.jpg" "Canon"]).report .standard ≠
      (ofRecords .standard [ofMake "b.jpg" "Canon", ofMake "a.jpg" "Sony"]).report .standard := by
  have hsony := report_of_two_makes
    (show (ofRecords .standard [ofMake "a.jpg" "Sony", ofMake "b.jpg" "Canon"]).rows .standard =
      [⟨"mk", "Make", "Sony", 1⟩, ⟨"mk", "Make", "Canon", 1⟩] by decide +kernel)
  have hcanon := report_of_two_makes
    (show (ofRecords .standard [ofMake "b.jpg" "Canon", ofMake "a.jpg" "Sony"]).rows .standard =
      [⟨"mk", "Make", "Canon", 1⟩, ⟨"mk", "Make", "Sony", 1⟩] by decide +kernel)
  refine ⟨.swap _ _ _, ?_⟩
  rw [hsony, hcanon]
  decide +kernel

end PhotoNaming.Tally
