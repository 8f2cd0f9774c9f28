import PhotoNaming.Source.Collection
import PhotoNaming.Source.Scan
import PhotoNaming.Proofs.Source.Walking
import PhotoNaming.Proofs.Record.Building

/-! What is found and scanned. No path of a source leads to a directory, and each record is of a file that
is there. In which order the scans are completed decides neither whether there is a fault nor which records
there are, only in which order they are counted. -/
namespace PhotoNaming

namespace Record

variable {r : Record}

theorem source_offer (r : Record) (p : Property) : (r.offer p).source = r.source := by
  unfold offer put
  split
  · split <;> rfl
  · rfl

theorem source_gathered (catalog : Catalog) (source : Text) (groups : List TagGroup) :
    (gathered catalog source groups).source = source := by
  have run (offers : List Property) (r : Record) : (offers.foldl offer r).source = r.source := by
    induction offers generalizing r with
    | nil => rfl
    | cons p rest ih => rw [List.foldl_cons, ih, source_offer]
  exact run _ (empty source)

theorem source_of_build {catalog : Catalog} {groups : List TagGroup} {facts : Facts} {source : Text}
    (h : (build catalog source groups facts).result = .ok r) : r.source = source := by
  rw [eq_extended_of_build h]
  exact source_gathered catalog source groups

end Record

variable {tree : FileTree} {path : Text}

/-- A path is not taken for a photo's if it leads to a directory. -/
theorem Source.isDirectory_of_mem_collect {source : Text} {extensions excluded paths : List Text}
    {recursive : Bool}
    (h : (Source.collect tree source extensions recursive excluded).result = .ok paths)
    (hm : path ∈ paths) : tree.isDirectory path = false := by
  unfold Source.collect at h
  split at h
  · rename_i he
    obtain rfl : [source] = paths := Except.ok.inj h
    rw [List.mem_singleton.mp hm, FileTree.isDirectory, he]
  · obtain rfl := Except.ok.inj h
    obtain ⟨photos, hphotos, hm⟩ := List.mem_flatten.mp hm
    obtain ⟨names, _, rfl⟩ := List.mem_map.mp hphotos
    obtain ⟨name, hname, rfl⟩ := List.mem_map.mp hm
    obtain ⟨_, hlisted, _⟩ := Source.mem_photoNames.mp hname
    unfold Source.isListed at hlisted
    split at hlisted
    · rw [Source.isTakenForDirectory, Bool.not_or, Bool.and_eq_true] at hlisted
      simpa using hlisted.2
    · exact FileTree.isDirectory_of_isFile hlisted
  · cases h

namespace Scan

variable {catalog : Catalog} {r : Record}

theorem exists?_of_ofPath {facts : Facts} (h : Facts.ofPath tree path = .ok facts) :
    tree.exists? path = true := by
  rw [FileTree.exists?]
  cases he : tree.entryAt path with
  | ok found => rfl
  | error refusal =>
    rw [Facts.ofPath, he] at h
    cases h

theorem of_file (h : (file tree catalog path).result = .ok r) :
    r.source = path ∧ tree.exists? path = true := by
  obtain ⟨facts, hf, h⟩ := Logged.result_bind_eq_ok_iff.mp h
  obtain ⟨groups, _, h⟩ := Logged.result_bind_eq_ok_iff.mp h
  exact ⟨Record.source_of_build (Logged.result_mapError_eq_ok_iff.mp h),
    exists?_of_ofPath (mapError_eq_ok_iff.mp hf)⟩

theorem untilFault_snd_eq_none_iff {results : List (Text × Except ScanFault Record)} :
    (untilFault results).2 = none ↔ ∀ result ∈ results, ∃ r, result.2 = .ok r := by
  induction results with
  | nil => simp [untilFault]
  | cons result rest ih =>
    obtain ⟨path, result⟩ := result
    cases result with
    | error fault => simp [untilFault]
    | ok r => simp [untilFault, ih]

theorem untilFault_fst_of_none {results : List (Text × Except ScanFault Record)}
    (h : (untilFault results).2 = none) : (untilFault results).1 = results.filterMap (·.2.toOption) := by
  induction results with
  | nil => rfl
  | cons result rest ih =>
    obtain ⟨path, result⟩ := result
    cases result with
    | error fault => cases h
    | ok r => exact congrArg (r :: ·) (ih h)

theorem Completion.arranged_perm {α : Type} (c : Completion) (as : List α) : (c.arranged as).Perm as := by
  have h := (c.perm as.length).map as.get
  rwa [List.map_get_finRange] at h

section Run

variable {course course' : Course} {workers : Number} {paths : List Text}

/-- A scanned record is that of a path which leads somewhere. -/
theorem of_mem_records (h : r ∈ (run tree catalog course workers paths).records) :
    r.source ∈ paths ∧ tree.exists? r.source = true := by
  unfold run at h
  split at h
  · cases h
  · obtain ⟨result, hm, hr⟩ := List.mem_filterMap.mp h
    rw [List.map_map] at hm
    obtain ⟨path, hpath, rfl⟩ := List.mem_map.mp hm
    obtain ⟨hs, hex⟩ := of_file (toOption_eq_some_iff.mp hr)
    rw [hs]
    exact ⟨hpath, hex⟩

theorem fault_run_eq_none_iff : (run tree catalog course workers paths).fault = none ↔
    ∀ path ∈ paths, ∃ r, (file tree catalog path).result = .ok r := by
  unfold run
  split
  · rename_i hnil
    simp [hnil]
  · have hp := course.completion.arranged_perm
      ((paths.map fun path => (path, file tree catalog path)).map fun scan => (scan.1, scan.2.result))
    rw [Option.map_eq_none_iff, untilFault_snd_eq_none_iff]
    exact (forall_congr' fun _ => imp_congr_left hp.mem_iff).trans (by simp)

theorem records_run (course course' : Course) :
    (run tree catalog course workers paths).records = (run tree catalog course' workers paths).records := by
  unfold run
  split <;> rfl

/-- All records are counted if no scan fails. -/
theorem counted_perm (h : (run tree catalog course workers paths).fault = none) :
    (run tree catalog course workers paths).counted.Perm (run tree catalog course workers paths).records := by
  unfold run at h ⊢
  split at h
  · rename_i hnil
    rw [if_pos hnil]
  · rename_i hne
    rw [if_neg hne]
    have hp := course.completion.arranged_perm
      ((paths.map fun path => (path, file tree catalog path)).map fun scan => (scan.1, scan.2.result))
    dsimp only at h ⊢
    rw [untilFault_fst_of_none (Option.map_eq_none_iff.mp h)]
    exact hp.filterMap _

end Run

end Scan

end PhotoNaming
