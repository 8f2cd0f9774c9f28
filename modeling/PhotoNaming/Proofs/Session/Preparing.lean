import PhotoNaming.Session.Run
import PhotoNaming.Proofs.Source.Scanned
import PhotoNaming.Proofs.Transfer.Direct

/-! What comes before the plan is shown or carried out. It either ends the run without success or leaves a plan
for files that are there, below a directory that can be relied on; whether the plan is only shown makes no
difference to it. -/
namespace PhotoNaming

namespace Stage

variable {α β ε : Type} {stage other : Stage α} {next next' : α → Stage β} {b : β}

theorem result_bind_eq_ok_iff :
    (stage >>= next).result = .ok b ↔ ∃ a, stage.result = .ok a ∧ (next a).result = .ok b := by
  change (bind stage next).result = _ ↔ _
  rw [bind]
  cases stage.result <;> simp

theorem result_bind_congr (h : stage.result = other.result)
    (hn : ∀ a, (next a).result = (next' a).result) :
    (stage >>= next).result = (other >>= next').result := by
  change (bind stage next).result = (bind other next').result
  rw [bind, bind, h]
  cases other.result with
  | error ending => rfl
  | ok a => exact hn a

theorem eq_ok_of_ofExcept {ending : ε → Stage α} {result : Except ε α} {a : α}
    (hn : ∀ fault, (ending fault).result ≠ .ok a) (h : (ofExcept ending result).result = .ok a) :
    result = .ok a := by
  cases result with
  | ok found => rw [Except.ok.inj (show (Except.ok found : Except Ending α) = .ok a from h)]
  | error fault => exact absurd h (hn fault)

theorem result_setting_eq_ok_iff {result : Except SettingFault α} {a : α} :
    (setting result).result = .ok a ↔ result = .ok a := by
  constructor
  · exact eq_ok_of_ofExcept fun _ => nofun
  · rintro rfl
    rfl

/-- A part that does not end the run in success. -/
def Unfinished (stage : Stage α) : Prop := stage.result ≠ .error (.exit 0)

theorem unfinished_write (texts : List Text) : (write texts).Unfinished := nofun

theorem unfinished_log (entries : List Journal.Entry) : (log entries).Unfinished := nofun

theorem unfinished_stop (fault : SessionFault) : (stop fault : Stage α).Unfinished := nofun

theorem unfinished_refuse (complaint : Text) : (refuse complaint : Stage α).Unfinished := nofun

theorem unfinished_terminate (complaint : Text) : (terminate complaint : Stage α).Unfinished := nofun

theorem unfinished_ofExcept {ending : ε → Stage α} (h : ∀ fault, (ending fault).Unfinished)
    (result : Except ε α) : (ofExcept ending result).Unfinished := by
  cases result with
  | ok a => exact nofun
  | error fault => exact h fault

theorem unfinished_setting (result : Except SettingFault α) : (setting result).Unfinished :=
  unfinished_ofExcept (fun _ => unfinished_stop _) result

theorem Unfinished.bind (h : stage.Unfinished) (hn : ∀ a, (next a).Unfinished) :
    (stage >>= next).Unfinished := by
  change (Stage.bind stage next).result ≠ _
  rw [Stage.bind]
  unfold Unfinished at h
  cases he : stage.result with
  | error ending =>
    rw [he] at h
    exact fun hr => h (congrArg Except.error (Except.error.inj hr))
  | ok a => exact hn a

end Stage

namespace Configuration

variable {tree : FileTree} {c : Configuration} {directory : Text}

theorem steady_directory_absolute (tree : FileTree) (path : Text) :
    tree.Steady (Path.directory (tree.absolute path)) := by
  have ha : Path.isAbsolute (Path.join ('/' :: Text.joinWith ['/'] tree.working) path) = true := by
    cases hp : Path.isAbsolute path with
    | true => rw [Path.join, if_pos hp, hp]
    | false =>
      rw [Path.isAbsolute_join _ hp]
      rfl
  refine .inr ⟨Path.isAbsolute_directory ?_, (Path.normalParts_directory ha).1⟩
  rw [FileTree.absolute, Path.absolute, Path.isAbsolute_normal, ha]

/-- The directory for new files is there, or is that of a photo and written from the root on. -/
theorem steady_targetDirectory (h : c.targetDirectory tree = .ok directory) : tree.Steady directory := by
  unfold targetDirectory at h
  split at h
  · obtain ⟨path?, _, h⟩ := bind_eq_ok_iff.mp h
    cases path? with
    | none => cases h
    | some path =>
      dsimp only at h
      split at h
      · rename_i hd
        obtain rfl := Except.ok.inj h
        exact .inl hd
      · cases h
  · obtain ⟨path?, _, h⟩ := bind_eq_ok_iff.mp h
    cases path? with
    | none => cases h
    | some path =>
      obtain rfl := Except.ok.inj h
      split
      · rename_i hd
        exact .inl hd
      · exact steady_directory_absolute tree path

end Configuration

namespace Session

variable {catalog : Catalog} {tree : FileTree} {course : Scan.Course} {c : Configuration}

theorem isDirectory_of_mem_sources {paths : List Text} (h : (sources tree c).result = .ok paths)
    {path : Text} (hm : path ∈ paths) : tree.isDirectory path = false := by
  unfold sources at h
  split at h
  · cases h
  · split at h
    · cases h
    · cases h
    · obtain ⟨_, _, h⟩ := Stage.result_bind_eq_ok_iff.mp h
      refine Source.isDirectory_of_mem_collect (Stage.eq_ok_of_ofExcept ?_ h) hm
      exact fun _ => nofun

theorem steady_of_target {directory : Text} (h : (target tree c).result = .ok directory) :
    tree.Steady directory := by
  refine Configuration.steady_targetDirectory (Stage.eq_ok_of_ofExcept ?_ h)
  intro fault
  cases fault <;> exact nofun

theorem scan_eq_ok_iff {workers : Number} {paths : List Text} {records : List Record} {tally : Tally} :
    (scan catalog tree course workers paths).result = .ok (records, tally) ↔
      (Scan.run tree catalog course workers paths).fault = none ∧
        (Scan.run tree catalog course workers paths).records = records ∧
          (Scan.run tree catalog course workers paths).tally catalog = tally := by
  refine Stage.result_bind_eq_ok_iff.trans ?_
  cases hf : (Scan.run tree catalog course workers paths).fault with
  | none =>
    simp only [true_and]
    constructor
    · rintro ⟨_, _, h⟩
      exact Prod.mk.inj (Except.ok.inj h)
    · rintro ⟨rfl, rfl⟩
      exact ⟨(), rfl, rfl⟩
  | some fault =>
    simp only [reduceCtorEq, false_and, iff_false]
    rintro ⟨_, _, h⟩
    split at h <;> cases h

theorem of_mem_scan {workers : Number} {paths : List Text} {records : List Record} {tally : Tally}
    (h : (scan catalog tree course workers paths).result = .ok (records, tally)) {r : Record}
    (hr : r ∈ records) : r.source ∈ paths ∧ tree.exists? r.source = true := by
  obtain ⟨_, rfl, _⟩ := scan_eq_ok_iff.mp h
  exact Scan.of_mem_records hr

/-- Scans that are completed in another order come to the same records. -/
theorem exists_scan {workers : Number} {paths : List Text} {records : List Record} {tally : Tally}
    (h : (scan catalog tree course workers paths).result = .ok (records, tally)) (course' : Scan.Course) :
    ∃ tally', (scan catalog tree course' workers paths).result = .ok (records, tally') := by
  obtain ⟨hf, hr, _⟩ := scan_eq_ok_iff.mp h
  refine ⟨_, scan_eq_ok_iff.mpr ⟨?_, ?_, rfl⟩⟩
  · exact Scan.fault_run_eq_none_iff.mpr (Scan.fault_run_eq_none_iff.mp hf)
  · rw [Scan.records_run course' course, hr]

/-- What a preparation is made of. -/
theorem prepare_eq_ok_iff {p : Preparation} :
    (prepare catalog tree course c).result = .ok p ↔
      ∃ paths directory pattern levels workers records tally,
        (sources tree c).result = .ok paths ∧ (target tree c).result = .ok directory ∧
          c.compiledFilePattern = .ok pattern ∧ c.compiledLevels = .ok levels ∧
            c.threads = .ok workers ∧
              (scan catalog tree course workers paths).result = .ok (records, tally) ∧
                p = ⟨.ofRecords tree records pattern levels directory c.extensions, tally⟩ := by
  constructor
  · intro h
    obtain ⟨paths, hpaths, h⟩ := Stage.result_bind_eq_ok_iff.mp h
    obtain ⟨directory, hd, h⟩ := Stage.result_bind_eq_ok_iff.mp h
    obtain ⟨pattern, hpattern, h⟩ := Stage.result_bind_eq_ok_iff.mp h
    obtain ⟨_, _, h⟩ := Stage.result_bind_eq_ok_iff.mp h
    obtain ⟨levels, hlevels, h⟩ := Stage.result_bind_eq_ok_iff.mp h
    obtain ⟨_, _, h⟩ := Stage.result_bind_eq_ok_iff.mp h
    obtain ⟨_, _, h⟩ := Stage.result_bind_eq_ok_iff.mp h
    obtain ⟨_, _, h⟩ := Stage.result_bind_eq_ok_iff.mp h
    obtain ⟨workers, hworkers, h⟩ := Stage.result_bind_eq_ok_iff.mp h
    obtain ⟨⟨records, tally⟩, hscan, h⟩ := Stage.result_bind_eq_ok_iff.mp h
    obtain ⟨_, _, h⟩ := Stage.result_bind_eq_ok_iff.mp h
    obtain ⟨_, _, h⟩ := Stage.result_bind_eq_ok_iff.mp h
    obtain ⟨_, _, h⟩ := Stage.result_bind_eq_ok_iff.mp h
    obtain ⟨_, _, h⟩ := Stage.result_bind_eq_ok_iff.mp h
    exact ⟨paths, directory, pattern, levels, workers, records, tally, hpaths, hd,
      Stage.result_setting_eq_ok_iff.mp hpattern, Stage.result_setting_eq_ok_iff.mp hlevels,
      Stage.result_setting_eq_ok_iff.mp hworkers, hscan, (Except.ok.inj h).symm⟩
  · rintro ⟨paths, directory, pattern, levels, workers, records, tally, hpaths, hd, hpattern, hlevels,
      hworkers, hscan, rfl⟩
    refine Stage.result_bind_eq_ok_iff.mpr ⟨paths, hpaths, ?_⟩
    refine Stage.result_bind_eq_ok_iff.mpr ⟨directory, hd, ?_⟩
    refine Stage.result_bind_eq_ok_iff.mpr
      ⟨pattern, Stage.result_setting_eq_ok_iff.mpr hpattern, ?_⟩
    refine Stage.result_bind_eq_ok_iff.mpr ⟨(), rfl, ?_⟩
    refine Stage.result_bind_eq_ok_iff.mpr ⟨levels, Stage.result_setting_eq_ok_iff.mpr hlevels, ?_⟩
    refine Stage.result_bind_eq_ok_iff.mpr ⟨(), rfl, ?_⟩
    refine Stage.result_bind_eq_ok_iff.mpr ⟨(), rfl, ?_⟩
    refine Stage.result_bind_eq_ok_iff.mpr ⟨(), rfl, ?_⟩
    refine Stage.result_bind_eq_ok_iff.mpr
      ⟨workers, Stage.result_setting_eq_ok_iff.mpr hworkers, ?_⟩
    refine Stage.result_bind_eq_ok_iff.mpr ⟨(records, tally), hscan, ?_⟩
    refine Stage.result_bind_eq_ok_iff.mpr ⟨(), rfl, ?_⟩
    refine Stage.result_bind_eq_ok_iff.mpr ⟨(), rfl, ?_⟩
    refine Stage.result_bind_eq_ok_iff.mpr ⟨(), rfl, ?_⟩
    exact Stage.result_bind_eq_ok_iff.mpr ⟨(), rfl, rfl⟩

/-- A plan is made for what is there and no directory, below a directory that is there or written from the
root. -/
theorem exists_of_prepare {p : Preparation}
    (h : (prepare catalog tree course c).result = .ok p) :
    ∃ records pattern levels directory,
      p.plan = Plan.ofRecords tree records pattern levels directory c.extensions ∧
        tree.Steady directory ∧
          ∀ r ∈ records, tree.exists? r.source = true ∧ tree.isDirectory r.source = false := by
  obtain ⟨paths, directory, pattern, levels, workers, records, tally, hpaths, hd, _, _, _, hscan, rfl⟩ :=
    prepare_eq_ok_iff.mp h
  refine ⟨records, pattern, levels, directory, rfl, steady_of_target hd, ?_⟩
  intro r hr
  obtain ⟨hm, hex⟩ := of_mem_scan hscan hr
  exact ⟨hex, isDirectory_of_mem_sources hpaths hm⟩

/-- Whether the plan is only to be shown is among the options in effect, and nowhere else. -/
theorem result_prepare_scanOnly (scanOnly : Setting) :
    (prepare catalog tree course { c with scanOnly }).result =
      (prepare catalog tree course c).result := by
  refine Stage.result_bind_congr rfl fun paths => ?_
  refine Stage.result_bind_congr rfl fun directory => ?_
  refine Stage.result_bind_congr rfl fun pattern => ?_
  refine Stage.result_bind_congr rfl fun _ => ?_
  refine Stage.result_bind_congr rfl fun levels => ?_
  refine Stage.result_bind_congr rfl fun _ => ?_
  exact Stage.result_bind_congr rfl fun _ => rfl

/-- The same plan is made in whatever order the scans are completed. -/
theorem exists_prepare {p : Preparation} (h : (prepare catalog tree course c).result = .ok p)
    (course' : Scan.Course) :
    ∃ p', (prepare catalog tree course' c).result = .ok p' ∧ p'.plan = p.plan := by
  obtain ⟨paths, directory, pattern, levels, workers, records, tally, hpaths, hd, hpattern, hlevels,
    hworkers, hscan, rfl⟩ := prepare_eq_ok_iff.mp h
  obtain ⟨tally', hscan'⟩ := exists_scan hscan course'
  exact ⟨_, prepare_eq_ok_iff.mpr ⟨paths, directory, pattern, levels, workers, records, tally', hpaths, hd,
    hpattern, hlevels, hworkers, hscan', rfl⟩, rfl⟩

theorem unfinished_sources (tree : FileTree) (c : Configuration) : (sources tree c).Unfinished := by
  unfold sources
  split
  · exact Stage.unfinished_refuse _
  · split
    · exact Stage.unfinished_stop _
    · exact Stage.unfinished_refuse _
    · exact (Stage.unfinished_log _).bind fun _ =>
        Stage.unfinished_ofExcept (fun _ => Stage.unfinished_refuse _) _

theorem unfinished_scan (catalog : Catalog) (tree : FileTree) (course : Scan.Course) (workers : Number)
    (paths : List Text) : (scan catalog tree course workers paths).Unfinished := by
  refine (Stage.unfinished_log _).bind fun _ => ?_
  split
  · exact nofun
  · split
    · exact Stage.unfinished_terminate _
    · exact Stage.unfinished_stop _

theorem unfinished_prepare (catalog : Catalog) (tree : FileTree) (course : Scan.Course) (c : Configuration) :
    (prepare catalog tree course c).Unfinished := by
  refine (unfinished_sources tree c).bind fun paths => ?_
  refine (Stage.unfinished_ofExcept ?_ _).bind fun directory => ?_
  · intro fault
    cases fault <;> exact nofun
  refine (Stage.unfinished_setting _).bind fun pattern => (Stage.unfinished_log _).bind fun _ => ?_
  refine (Stage.unfinished_setting _).bind fun levels => (Stage.unfinished_log _).bind fun _ => ?_
  refine (Stage.unfinished_write _).bind fun _ => (Stage.unfinished_write _).bind fun _ => ?_
  refine (Stage.unfinished_setting _).bind fun workers => ?_
  refine (unfinished_scan _ _ _ _ _).bind fun found => (Stage.unfinished_write _).bind fun _ => ?_
  refine (Stage.unfinished_log _).bind fun _ => (Stage.unfinished_write _).bind fun _ => ?_
  exact (Stage.unfinished_log _).bind fun _ => nofun

end Session

end PhotoNaming
