import Mathlib
import PhotoNaming.Proofs.Session.Preparing

/-! Runs that only show their plan. They leave all files as they are, and what they show is what a run that
comes through does where nothing is in its way. -/
namespace PhotoNaming.Session

variable {catalog : Catalog} {tree : FileTree} {course : Scan.Course} {c : Configuration} {p : Preparation}

theorem run_of_error {ending : Ending}
    (h : (prepare catalog tree course c).result = .error ending) :
    run catalog tree course c = ⟨(prepare catalog tree course c).shown, tree, [], ending⟩ := by
  simp only [run, h]

theorem run_of_on (h : (prepare catalog tree course c).result = .ok p) (hs : c.scanOnly.isOn = true) :
    run catalog tree course c =
      (preview catalog tree c p).behind (prepare catalog tree course c).shown := by
  simp only [run, h, hs, if_true]

theorem run_of_off (h : (prepare catalog tree course c).result = .ok p)
    (hs : c.scanOnly.isOn = false) :
    run catalog tree course c =
      (carryOut catalog tree c p).behind (prepare catalog tree course c).shown := by
  simp only [run, h, hs, Bool.false_eq_true, if_false]

theorem unfinished_transferEnd (fault : TransferFault) : (transferEnd fault).Unfinished := by
  unfold transferEnd
  split
  · split
    · exact Stage.unfinished_terminate _
    · exact Stage.unfinished_stop _
  · exact Stage.unfinished_terminate _

theorem carryOut_of_none (h : (Transfer.ofPlan c.move.isOn tree p.plan).fault = none) :
    carryOut catalog tree c p =
      { shown := (Transfer.ofPlan c.move.isOn tree p.plan).entries.map Shown.entry ++
          ((Transfer.ofPlan c.move.isOn tree p.plan).done.map fun (source, target) =>
            .text (pairLine source target)) ++ statistics catalog c p.tally
        tree := (Transfer.ofPlan c.move.isOn tree p.plan).tree
        done := (Transfer.ofPlan c.move.isOn tree p.plan).done
        ending := .exit 0 } := by
  rw [carryOut]
  simp only [h]

/-- A plan that is carried out to its end makes a success, and no other. -/
theorem ending_eq_exit_iff :
    (carryOut catalog tree c p).ending = .exit 0 ↔
      (Transfer.ofPlan c.move.isOn tree p.plan).fault = none := by
  cases hf : (Transfer.ofPlan c.move.isOn tree p.plan).fault with
  | none => simp [carryOut_of_none hf]
  | some fault =>
    have hu := unfinished_transferEnd fault
    rw [carryOut]
    simp only [hf, reduceCtorEq, iff_false]
    cases hr : (transferEnd fault).result with
    | error ending => exact fun h => hu (h ▸ hr)
    | ok a => nofun

variable (catalog c)

/-- A run that only shows its plan leaves the files as they are, whatever becomes of it. If the same run
succeeds in earnest and nothing was in the place of a planned file, then both show the same pairs of paths in
the end, and these are the files that were copied or moved. The scans of the two runs may take different times
and be completed in different orders. -/
theorem preview_is_faithful (hp : tree.Plain) {on off : Setting} (hon : on.isOn = true)
    (hoff : off.isOn = false) (course course' : Scan.Course) :
    let dry := run catalog tree course { c with scanOnly := on }
    let real := run catalog tree course' { c with scanOnly := off }
    let before := prepare catalog tree course { c with scanOnly := on }
    let before' := prepare catalog tree course' { c with scanOnly := off }
    (dry.tree = tree ∧ dry.done = []) ∧
      (real.ending = .exit 0 → ∃ p p', before.result = .ok p ∧ before'.result = .ok p' ∧ p.plan = p'.plan ∧
        ((∀ f ∈ p.plan.files, tree.exists? f.target = false) →
          let pairs := p.plan.files.map fun f => (f.source, f.target)
          let lines := pairs.map fun (source, target) => Shown.text (pairLine source target)
          dry.ending = .exit 0 ∧
            dry.shown = before.shown ++ (lines ++ statistics catalog c p.tally) ∧
            real.done = pairs ∧
            ∃ entries : List Journal.Entry, real.shown =
              before'.shown ++ (entries.map .entry ++ lines ++ statistics catalog c p'.tally))) := by
  intro dry real before before'
  refine ⟨?_, fun hexit => ?_⟩
  · cases hr : before.result with
    | error ending => simp only [dry, run_of_error hr, and_self]
    | ok p => simp only [dry, run_of_on hr hon, behind, preview, and_self]
  · cases hr' : before'.result with
    | error ending =>
      simp only [real, run_of_error hr'] at hexit
      exact absurd (hexit ▸ hr') (unfinished_prepare catalog tree course' _)
    | ok p' =>
      have hc : (prepare catalog tree course' c).result = .ok p' :=
        (result_prepare_scanOnly off).symm.trans hr'
      obtain ⟨p, hr, hplan⟩ := exists_prepare hc course
      have hr : before.result = .ok p := (result_prepare_scanOnly on).trans hr
      have hdry := run_of_on hr hon
      have hreal := run_of_off hr' hoff
      refine ⟨p, p', hr, rfl, hplan, fun hfree => ?_⟩
      simp only [real, hreal, behind] at hexit
      have hnone := ending_eq_exit_iff.mp hexit
      obtain ⟨records, pattern, levels, directory, hp', hd, hs⟩ := exists_of_prepare hc
      have hdone : (Transfer.ofPlan c.move.isOn tree p'.plan).done =
          p.plan.files.map fun f => (f.source, f.target) := by
        rw [hplan, hp'] at hfree ⊢
        rw [hp'] at hnone
        exact Transfer.done_ofPlan hp c.move.isOn hd hs hfree hnone
      simp only [dry, real, hdry, hreal, carryOut_of_none hnone, hdone, behind, preview, List.map_map,
        true_and]
      exact ⟨rfl, _, rfl⟩

/-- Two photos in a directory, which are moved to other names there. -/
private def album : FileTree where
  entries := [([['d']], .directory), ([['d'], "a.jpg".toList], .file (.ofText ['x'] 0)),
    ([['d'], "b.jpg".toList], .file (.ofText ['y'] 0))]
  working := []

private def albumRun : Configuration where
  source := .text ['d']
  target := .nothing
  recursive := .nothing
  scanOnly := .nothing
  move := .flag true
  showProperties := .nothing
  showStatistics := .nothing
  filePattern := .text ['p']
  directoryPattern := .nothing
  workers := .plain (.number (.integer 2))
  logLevel := .text "INFO".toList
  logFile := .nothing
  extensions := [".jpg".toList]
  excluded := []
  others := []

private def photos : List Text := ["d/a.jpg".toList, "d/b.jpg".toList]

private def renamed : List PlannedFile :=
  [⟨"d/a.jpg".toList, "d/p_1.jpg".toList⟩, ⟨"d/b.jpg".toList, "d/p_2.jpg".toList⟩]

private def backwards : Scan.Completion := ⟨fun n => (List.finRange n).reverse, fun _ => List.reverse_perm _⟩

private theorem file_album {path : Text} (h : path ∈ photos) :
    (Scan.file album ⟨[], []⟩ path).result = .ok (.empty path) := by
  have ha : album.entryAt "d/a.jpg".toList = .ok ([['d'], "a.jpg".toList], .file (.ofText ['x'] 0)) := by cbv
  have hb : album.entryAt "d/b.jpg".toList = .ok ([['d'], "b.jpg".toList], .file (.ofText ['y'] 0)) := by cbv
  have hfacts : (Facts.ofPath album path).isOk := by
    simp only [photos, List.mem_cons, List.not_mem_nil, or_false] at h
    rcases h with rfl | rfl
    · rw [Facts.ofPath, ha]
      decide +kernel
    · rw [Facts.ofPath, hb]
      decide +kernel
  have hgroups : (Scan.groupsOrNone album path).result = .ok [] := by
    simp only [photos, List.mem_cons, List.not_mem_nil, or_false] at h
    rcases h with rfl | rfl <;> cbv
  obtain ⟨facts, hfacts⟩ := exists_eq_ok_of_isOk hfacts
  exact Logged.result_bind_eq_ok_iff.mpr ⟨facts, mapError_eq_ok_iff.mpr hfacts,
    Logged.result_bind_eq_ok_iff.mpr ⟨[], hgroups, rfl⟩⟩

private theorem scan_album (course : Scan.Course) (workers : Number) :
    ∃ tally, (scan ⟨[], []⟩ album course workers photos).result = .ok (photos.map .empty, tally) := by
  refine ⟨_, scan_eq_ok_iff.mpr ⟨?_, ?_, rfl⟩⟩
  · exact Scan.fault_run_eq_none_iff.mpr fun path hm => ⟨_, file_album hm⟩
  · have ha := file_album (show "d/a.jpg".toList ∈ photos by decide)
    have hb := file_album (show "d/b.jpg".toList ∈ photos by decide)
    rw [Scan.run, if_neg (by decide)]
    simp only [photos, List.map_cons, List.map_nil, ha, hb]
    rfl

private theorem files_album :
    (Plan.ofRecords album (photos.map .empty) (.compile ['p']) [] ['d'] [".jpg".toList]).files = renamed := by
  have hnamed : (photos.map .empty).map (NamedRecord.ofRecord (.compile ['p']) [] [".jpg".toList]) =
      photos.map fun path => ⟨path, ['p'], ".jpg".toList, []⟩ := by decide +kernel
  rw [Plan.ofRecords, hnamed]
  cbv

private theorem prepare_album (course : Scan.Course) :
    ∃ p, (prepare ⟨[], []⟩ album course albumRun).result = .ok p ∧ p.plan.files = renamed ∧
      p.plan.newDirectories = [] := by
  have hsources : (sources album albumRun).result = .ok photos := by cbv
  have htarget : (target album albumRun).result = .ok ['d'] := by cbv
  have hthreads : ∃ workers, albumRun.threads = .ok workers := ⟨_, rfl⟩
  obtain ⟨workers, hthreads⟩ := hthreads
  obtain ⟨tally, hscan⟩ := scan_album course workers
  exact ⟨_, prepare_eq_ok_iff.mpr ⟨photos, ['d'], .compile ['p'], [], workers, _, tally, hsources, htarget,
    rfl, rfl, hthreads, hscan, rfl⟩, files_album, rfl⟩

/-- Two photos are moved, and scanned in one order for the preview and in the other for the move. -/
theorem album_preview_is_faithful :
    let dry := run ⟨[], []⟩ album ⟨[], .inTurn⟩ { albumRun with scanOnly := .flag true }
    let real := run ⟨[], []⟩ album ⟨[], backwards⟩ { albumRun with scanOnly := .flag false }
    let pairs := [("d/a.jpg".toList, "d/p_1.jpg".toList), ("d/b.jpg".toList, "d/p_2.jpg".toList)]
    album.Plain ∧ (Setting.flag true).isOn = true ∧ (Setting.flag false).isOn = false ∧
      real.ending = .exit 0 ∧ (∀ f ∈ renamed, album.exists? f.target = false) ∧
        dry.tree = album ∧ dry.ending = .exit 0 ∧ real.done = pairs := by
  intro dry real pairs
  have hp : album.Plain := by decide
  have hfree : ∀ f ∈ renamed, album.exists? f.target = false := by
    intro f hm
    simp only [renamed, List.mem_cons, List.not_mem_nil, or_false] at hm
    rcases hm with rfl | rfl <;> cbv
  obtain ⟨p, hprepare, hfiles, hnew⟩ := prepare_album ⟨[], backwards⟩
  have hending : real.ending = .exit 0 := by
    have hreal := run_of_off ((result_prepare_scanOnly (.flag false)).trans hprepare) rfl
    simp only [real, hreal, behind]
    refine ending_eq_exit_iff.mpr ?_
    rw [Transfer.ofPlan, hfiles, hnew]
    cbv
  obtain ⟨⟨htree, _⟩, hreal⟩ := preview_is_faithful ⟨[], []⟩ albumRun hp
    (show (Setting.flag true).isOn = true from rfl) (show (Setting.flag false).isOn = false from rfl)
    ⟨[], .inTurn⟩ ⟨[], backwards⟩
  obtain ⟨q, q', _, hq', hplan, hfaithful⟩ := hreal hending
  have hfiles : q.plan.files = renamed := by
    rw [hplan, ← hfiles]
    have he := hq'.symm.trans ((result_prepare_scanOnly (.flag false)).trans hprepare)
    rw [Except.ok.inj he]
  obtain ⟨hdry, _, hdone, _⟩ := hfaithful (by rwa [hfiles])
  rw [hfiles] at hdone
  exact ⟨hp, rfl, rfl, hending, hfree, htree, hdry, hdone⟩

end PhotoNaming.Session
