import PhotoNaming.Catalog.Standard
import PhotoNaming.Proofs.Tally.Counting
import Mathlib.Logic.Function.Basic

/-! Tallies that count records and are merged into each other, in any order. Each is the tally of the records
that came to it, as if it had counted them itself. -/
namespace PhotoNaming.Tally

section Adding

variable {counts more : List (Report × Nat)} {report other : Report} {n m : Nat}

/-- Adds all counts of a list. -/
def addedAll (counts more : List (Report × Nat)) : List (Report × Nat) :=
  more.foldl (fun counts c => added counts c.1 c.2) counts

/-- Counts for one report add up. -/
theorem added_added_self (counts : List (Report × Nat)) (report : Report) (m n : Nat) :
    added (added counts report m) report n = added counts report (m + n) := by
  rw [added_of_mem (mem_map_fst_added.mpr (.inl rfl))]
  by_cases h : report ∈ counts.map (·.1)
  · rw [added_of_mem h, added_of_mem h, List.map_map]
    apply List.map_congr_left
    intro c _
    by_cases hc : c.1 = report
    · simp [hc, Nat.add_assoc]
    · simp [hc]
  · rw [added_of_notMem h, added_of_notMem h, List.map_append]
    congr 1
    · refine (List.map_congr_left fun c hc => ?_).trans (List.map_id _)
      have hne : c.1 ≠ report := fun he => h (List.mem_map.mpr ⟨c, hc, he⟩)
      simp [hne]
    · simp

/-- A report that is held already is counted before or after another one. -/
theorem added_comm (h : report ∈ counts.map (·.1)) (hne : other ≠ report) (m n : Nat) :
    added (added counts report m) other n = added (added counts other n) report m := by
  rw [added_of_mem (mem_map_fst_added.mpr (.inr h)), added_of_mem h]
  by_cases ho : other ∈ counts.map (·.1)
  · have ho' : other ∈ (added counts report m).map (·.1) := mem_map_fst_added.mpr (.inr ho)
    rw [added_of_mem h] at ho'
    rw [added_of_mem ho', added_of_mem ho, List.map_map, List.map_map]
    apply List.map_congr_left
    intro c _
    by_cases hr : c.1 = report
    · simp [hr, hne.symm]
    · by_cases hc : c.1 = other
      · simp [hc, hne]
      · simp [hr, hc]
  · have ho' : other ∉ (added counts report m).map (·.1) := fun hm =>
      (mem_map_fst_added.mp hm).elim hne ho
    rw [added_of_mem h] at ho'
    rw [added_of_notMem ho', added_of_notMem ho, List.map_append]
    simp [hne]

/-- One count more of a report that is held is added before or after counts for other reports. -/
theorem addedAll_added (h : report ∈ counts.map (·.1)) (hm : report ∉ more.map (·.1)) (n : Nat) :
    addedAll (added counts report n) more = added (addedAll counts more) report n := by
  induction more generalizing counts with
  | nil => rfl
  | cons c more ih =>
    rw [List.map_cons, List.mem_cons, not_or] at hm
    rw [addedAll, List.foldl_cons, added_comm h (Ne.symm hm.1), ← addedAll,
      ih (mem_map_fst_added.mpr (.inr h)) hm.2]
    rfl

/-- To add counts among which one report has been counted once more is to add them and then to count it. -/
theorem addedAll_added_one (hn : (more.map (·.1)).Nodup) :
    addedAll counts (added more report 1) = added (addedAll counts more) report 1 := by
  by_cases h : report ∈ more.map (·.1)
  · obtain ⟨c, hc, rfl⟩ := List.mem_map.mp h
    obtain ⟨front, back, rfl⟩ := List.append_of_mem hc
    rw [List.map_append, List.map_cons] at hn
    have hfront : c.1 ∉ front.map (·.1) := fun hm => (List.nodup_append.mp hn).2.2 _ hm _ (by simp) rfl
    have hback : c.1 ∉ back.map (·.1) := (List.nodup_cons.mp hn.of_append_right).1
    have same {counts : List (Report × Nat)} (hm : c.1 ∉ counts.map (·.1)) :
        (counts.map fun d => if d.1 = c.1 then (d.1, d.2 + 1) else (d.1, d.2)) = counts := by
      refine (List.map_congr_left fun d hd => ?_).trans (List.map_id _)
      have hne : d.1 ≠ c.1 := fun he => hm (List.mem_map.mpr ⟨d, hd, he⟩)
      simp [hne]
    have hmore : added (front ++ c :: back) c.1 1 = front ++ (c.1, c.2 + 1) :: back := by
      rw [added_of_mem h, List.map_append, List.map_cons, same hfront, same hback]
      simp
    rw [hmore, addedAll, addedAll, List.foldl_append, List.foldl_append, List.foldl_cons,
      List.foldl_cons, ← addedAll, ← addedAll, ← added_added_self,
      addedAll_added (mem_map_fst_added.mpr (.inl rfl)) hback]
    rfl
  · rw [added_of_notMem h, addedAll, List.foldl_append, ← addedAll]
    rfl

/-- To add up what reports come to is to count them one after the other. -/
theorem addedAll_tabulated (counts : List (Report × Nat)) (more : List Report) :
    addedAll counts (tabulated more) = more.foldl (added · · 1) counts := by
  induction more using List.reverseRecOn with
  | nil => rfl
  | append_singleton more report ih =>
    rw [← added_tabulated, addedAll_added_one (map_fst_tabulated more ▸ nodup_eraseDups more), ih, List.foldl_append]
    rfl

end Adding

theorem merge_ofRecords (catalog : Catalog) (records others : List Record) :
    (ofRecords catalog records).merge (ofRecords catalog others) =
      ofRecords catalog (records ++ others) := by
  have hcounts := addedAll_tabulated (tabulated (allReports catalog records))
    (allReports catalog others)
  rw [foldl_added] at hcounts
  rw [merge, ofRecords_eq, ofRecords_eq, ofRecords_eq]
  dsimp only
  rw [← addedAll, hcounts, List.length_append, allReports, allReports, allReports,
    List.flatMap_append]

variable {ι : Type} [DecidableEq ι]

/-- What is done with one of several tallies: a record is counted in it, or a tally merged into it. -/
inductive Step (ι : Type)
  | count (a : ι) (r : Record)
  | merge (a b : ι)

namespace Step

/-- The tallies after a step. -/
def apply (catalog : Catalog) (tallies : ι → Tally) : Step ι → ι → Tally
  | .count a r => Function.update tallies a ((tallies a).count catalog r)
  | .merge a b => Function.update tallies a ((tallies a).merge (tallies b))

/-- The records that have come to each tally after a step. -/
def extend (held : ι → List Record) : Step ι → ι → List Record
  | .count a r => Function.update held a (held a ++ [r])
  | .merge a b => Function.update held a (held a ++ held b)

/-- A step keeps every tally the one of the records that came to it. -/
theorem apply_ofRecords (catalog : Catalog) (held : ι → List Record) (step : Step ι) :
    step.apply catalog (fun a => ofRecords catalog (held a)) =
      fun a => ofRecords catalog (step.extend held a) := by
  cases step with
  | count a r =>
    have he : (ofRecords catalog (held a)).count catalog r = ofRecords catalog (held a ++ [r]) := by
      rw [ofRecords, ofRecords, List.foldl_append]
      rfl
    rw [apply, extend, he]
    exact (Function.comp_update (ofRecords catalog) held a _).symm
  | merge a b =>
    rw [apply, extend, merge_ofRecords]
    exact (Function.comp_update (ofRecords catalog) held a _).symm

end Step

/-- The tallies after some steps; in the beginning they are all empty. -/
def run (catalog : Catalog) (steps : List (Step ι)) : ι → Tally :=
  steps.foldl (Step.apply catalog) fun _ => .empty

/-- The records that have come to each tally after some steps. -/
def history (steps : List (Step ι)) : ι → List Record := steps.foldl Step.extend fun _ => []

variable (catalog : Catalog) (steps : List (Step ι))

theorem run_eq : run catalog steps = fun a => ofRecords catalog (history steps a) := by
  induction steps using List.reverseRecOn with
  | nil => rfl
  | append_singleton steps step ih =>
    rw [run, history, List.foldl_append, List.foldl_append, ← run, ← history, ih, List.foldl_cons,
      List.foldl_cons, Step.apply_ofRecords]
    rfl

/-- No record comes to a tally that was not counted somewhere. -/
theorem exists_count_of_mem_history {a : ι} {r : Record} (h : r ∈ history steps a) :
    ∃ b, .count b r ∈ steps := by
  induction steps using List.reverseRecOn generalizing a with
  | nil => cases h
  | append_singleton steps step ih =>
    have before {b : ι} (hb : r ∈ history steps b) : ∃ b, .count b r ∈ steps ++ [step] := by
      obtain ⟨b, hb⟩ := ih hb
      exact ⟨b, List.mem_append_left _ hb⟩
    rw [history, List.foldl_append, ← history, List.foldl_cons, List.foldl_nil] at h
    cases step with
    | count c s =>
      rw [Step.extend, Function.update_apply] at h
      split at h
      · rcases List.mem_append.mp h with h | h
        · exact before h
        · rw [List.mem_singleton.mp h]
          exact ⟨c, by simp⟩
      · exact before h
    | merge c d =>
      rw [Step.extend, Function.update_apply] at h
      split at h
      · rcases List.mem_append.mp h with h | h
        · exact before h
        · exact before h
      · exact before h

/-- However records are counted in several tallies and these merged, each tally shows what it would show if
the records that came to it had been counted in it one after the other. -/
theorem merging_is_counting (hr : ∀ a r, .count a r ∈ steps → r.codes.Nodup) (a : ι) :
    let tally := run catalog steps a
    let records := history steps a
    let counted := records.foldl (count catalog) .empty
    tally.records = records.length ∧
      (∀ report, tally.countOf report =
        if catalog.isExcluded report.code then 0
        else records.countP fun r => (r.property? report.code).map (·.raw) = some report.raw) ∧
      (∀ limit, tally.top catalog limit = counted.top catalog limit) ∧
      tally.listing catalog = counted.listing catalog ∧
      tally.report catalog = counted.report catalog ∧
      tally.counts = counted.counts ∧
      ∀ c ∈ tally.counts, catalog.isExcluded c.1.code = false ∧ 0 < c.2 := by
  intro tally records counted
  have ht : tally = ofRecords catalog records := congrFun (run_eq catalog steps) a
  have hc : tally = counted := ht
  have hrecords : ∀ r ∈ records, r.codes.Nodup := by
    intro r hm
    obtain ⟨b, hb⟩ := exists_count_of_mem_history steps hm
    exact hr b r hb
  refine ⟨?_, ?_, fun limit => by rw [hc], by rw [hc], by rw [hc], by rw [hc], ?_⟩
  · rw [ht, ofRecords_eq]
  · intro report
    rw [ht, countOf_ofRecords, count_allReports hrecords]
  · intro c hm
    rw [ht] at hm
    exact of_mem_counts hm

/-- A tally merged into another one, which is then merged into itself. -/
theorem merging_into_itself_is_counting :
    let sony : Record := ⟨"a.jpg", [⟨"mk", "Make", "Sony", .text "Sony", "Sony"⟩]⟩
    let canon : Record := ⟨"b.jpg", [⟨"mk", "Make", "Canon", .text "Canon", "Canon"⟩]⟩
    let steps : List (Step Nat) := [.count 0 sony, .count 1 canon, .count 1 sony, .merge 0 1, .merge 0 0]
    (∀ a r, .count a r ∈ steps → r.codes.Nodup) ∧
      (run .standard steps 0).records = 6 ∧
      (run .standard steps 0).countOf ⟨"mk", "Sony"⟩ = 4 ∧
      (run .standard steps 0).countOf ⟨"mk", "Canon"⟩ = 2 := by
  intro sony canon steps
  have hr : ∀ a r, .count a r ∈ steps → r.codes.Nodup := by
    intro a r hm
    simp only [steps, List.mem_cons, List.not_mem_nil, or_false, Step.count.injEq, reduceCtorEq] at hm
    rcases hm with ⟨_, rfl⟩ | ⟨_, rfl⟩ | ⟨_, rfl⟩
    · exact List.nodup_singleton _
    · exact List.nodup_singleton _
    · exact List.nodup_singleton _
  obtain ⟨hrecords, hcount, _⟩ := merging_is_counting .standard steps hr 0
  exact ⟨hr, hrecords, hcount ⟨"mk", "Sony"⟩, hcount ⟨"mk", "Canon"⟩⟩

end PhotoNaming.Tally
