import Mathlib
import PhotoNaming.Proofs.Plan.Targets
import PhotoNaming.Proofs.Transfer.Steps

/-! Moving files. However far a run gets, no file is lost: each is where it was or where it was moved
to, and what has been moved once stays there. -/
namespace PhotoNaming

namespace FileTree

/-- Paths that lead to files, no two to the same one. -/
structure Separate (tree : FileTree) (paths : List Text) : Prop where
  isFile : ∀ path ∈ paths, tree.isFile path = true
  nodup : (paths.map tree.place?).Nodup

/-- What is the case after files were moved: none is lost, all other entries are where they were, and those
that were moved stand at different paths, where nothing stood or one of them did. -/
structure Moved (tree after : FileTree) (done : List (Text × Text)) : Prop where
  plain : after.Plain
  keeps : tree.Keeps after
  files : after.files = tree.files
  kept : ∀ place entry, tree.lookup? place = some entry →
    some place ∉ (done.map (·.1)).map tree.place? → after.lookup? place = some entry
  carried : ∀ p ∈ done, ∃ data place, tree.readFile p.1 = .ok data ∧ after.Reaches p.2 place ∧
    after.lookup? place = some (.file data) ∧
      (tree.lookup? place = none ∨ some place ∈ (done.map (·.1)).map tree.place?)
  nodup : (done.map (·.2)).Nodup

variable {tree after last : FileTree} {paths others : List Text} {done rest : List (Text × Text)}

namespace Separate

theorem of_perm (h : tree.Separate paths) (hp : others.Perm paths) : tree.Separate others where
  isFile path hm := h.isFile path (hp.mem_iff.mp hm)
  nodup := (hp.map tree.place?).nodup_iff.mpr h.nodup

theorem of_append_left (h : tree.Separate (paths ++ others)) : tree.Separate paths where
  isFile path hm := h.isFile path (List.mem_append_left _ hm)
  nodup := by
    have hn := h.nodup
    rw [List.map_append] at hn
    exact hn.of_append_left

theorem notMem_of_append (h : tree.Separate (paths ++ others)) {found : Option Location}
    (hf : found ∈ paths.map tree.place?) : found ∉ others.map tree.place? := by
  have hn := h.nodup
  rw [List.map_append, List.nodup_append] at hn
  exact fun ho => hn.2.2 found hf found ho rfl

theorem map_source_files {records : List Record} (h : tree.Separate (records.map (·.source)))
    (planning : FileTree) (pattern : Pattern) (levels : List Pattern) (directory : Text) (valid : List Text) :
    tree.Separate ((Plan.ofRecords planning records pattern levels directory valid).files.map (·.source)) := by
  refine h.of_perm ?_
  rw [Plan.map_source_files]
  exact (List.mergeSort_perm _ _).map _

theorem exists_file (h : tree.Separate paths) (hp : tree.Plain) {path : Text} (hm : path ∈ paths) :
    ∃ place data, tree.Reaches path place ∧ tree.lookup? place = some (.file data) ∧
      tree.place? path = some place := by
  obtain ⟨place, data, hr, he⟩ := hp.isFile_iff.mp (h.isFile path hm)
  exact ⟨place, data, hr, he, hp.place?_eq_some_iff.mpr ⟨_, hr, he⟩⟩

end Separate

namespace Moved

/-- Files that are yet to be moved are where they were. -/
theorem exists_source (hm : tree.Moved after done) (hp : tree.Plain)
    (hs : tree.Separate (done.map (·.1) ++ paths)) {path : Text} (h : path ∈ paths) :
    ∃ place data, tree.Reaches path place ∧ tree.lookup? place = some (.file data) ∧
      after.Reaches path place ∧ after.lookup? place = some (.file data) := by
  obtain ⟨place, data, hr, he, hpl⟩ := hs.exists_file hp (List.mem_append_right _ h)
  refine ⟨place, data, hr, he, hr.keeps hp hm.keeps, hm.kept place _ he ?_⟩
  intro hd
  exact hs.notMem_of_append hd (List.mem_map.mpr ⟨path, h, hpl⟩)

theorem map_place? (hm : tree.Moved after done) (hp : tree.Plain)
    (hs : tree.Separate (done.map (·.1) ++ paths)) :
    paths.map after.place? = paths.map tree.place? := by
  apply List.map_congr_left
  intro path h
  obtain ⟨place, data, hr, he, hr', he'⟩ := hm.exists_source hp hs h
  rw [hp.place?_eq_some_iff.mpr ⟨_, hr, he⟩, hm.plain.place?_eq_some_iff.mpr ⟨_, hr', he'⟩]

theorem separate (hm : tree.Moved after done) (hp : tree.Plain)
    (hs : tree.Separate (done.map (·.1) ++ paths)) : after.Separate paths where
  isFile path h := by
    obtain ⟨place, data, _, _, hr, he⟩ := hm.exists_source hp hs h
    exact hm.plain.isFile_iff.mpr ⟨place, data, hr, he⟩
  nodup := by
    have hn := hs.nodup
    rw [List.map_append] at hn
    rw [hm.map_place? hp hs]
    exact hn.of_append_right

/-- Where a file was moved to, none stands that is yet to be moved. -/
theorem notMem_places (hp : tree.Plain) (hs : tree.Separate (done.map (·.1) ++ rest.map (·.1)))
    {place : Location}
    (hv : tree.lookup? place = none ∨ some place ∈ (done.map (·.1)).map tree.place?) :
    some place ∉ (rest.map (·.1)).map tree.place? := by
  intro h
  rcases hv with hn | hd
  · obtain ⟨p, _, hpl⟩ := List.mem_map.mp h
    obtain ⟨entry, _, he⟩ := hp.place?_eq_some_iff.mp hpl
    simp [hn] at he
  · exact hs.notMem_of_append hd h

/-- A place is free after files were moved only if it was free before or a file was moved from it. -/
theorem vacant (hm : tree.Moved after done) {place : Location}
    (hn : after.lookup? place = none) :
    tree.lookup? place = none ∨ some place ∈ (done.map (·.1)).map tree.place? := by
  by_contra hc
  obtain ⟨he, hd⟩ := not_or.mp hc
  cases hf : tree.lookup? place with
  | none => exact he hf
  | some entry => simp [hm.kept place entry hf hd] at hn

theorem of_grows (h : tree.Grows after) : tree.Moved after [] :=
  ⟨h.plain, h.keeps, h.files, fun place entry he _ => h.kept place entry he, by simp, by simp⟩

/-- One file is moved to a path that leads to nothing. -/
theorem of_relocated (hp : tree.Plain) {source target : Text} {old place : Location}
    {data : FileData} (hs : tree.Reaches source old) (ho : tree.lookup? old = some (.file data))
    (ht : tree.Reaches target place) (hn : tree.lookup? place = none) :
    tree.Moved (tree.relocated old place) [(source, target)] where
  plain := hp.relocated ho nofun ht hn
  keeps := hp.keeps_relocated ho nofun hn
  files := hp.files_relocated ho nofun hn
  kept other found he hd := by
    have hsource : tree.place? source = some old := hp.place?_eq_some_iff.mpr ⟨_, hs, ho⟩
    rw [hp.lookup?_relocated ho nofun hn, if_neg, if_neg, he]
    · rintro rfl
      simp [hsource] at hd
    · rintro rfl
      simp [hn] at he
  carried p hm := by
    rw [List.mem_singleton.mp hm]
    refine ⟨data, place, hp.readFile_eq_ok_iff.mpr ⟨old, hs, ho⟩,
      ht.keeps hp (hp.keeps_relocated ho nofun hn), ?_, .inl hn⟩
    rw [hp.lookup?_relocated ho nofun hn, if_pos rfl]
  nodup := List.nodup_singleton _

/-- Files moved after others leave those where they are. -/
theorem trans (h : tree.Moved after done) (h' : after.Moved last rest) (hp : tree.Plain)
    (hs : tree.Separate (done.map (·.1) ++ rest.map (·.1))) : tree.Moved last (done ++ rest) := by
  have hplaces := h.map_place? hp hs
  have stays {place : Location} {entry : Entry} (he : after.lookup? place = some entry)
      (hv : tree.lookup? place = none ∨ some place ∈ (done.map (·.1)).map tree.place?) :
      last.lookup? place = some entry :=
    h'.kept place entry he (hplaces ▸ notMem_places hp hs hv)
  refine ⟨h'.plain, h.keeps.trans h'.keeps, h'.files.trans h.files, ?_, ?_, ?_⟩
  · intro place entry he hd
    rw [List.map_append, List.map_append, List.mem_append, not_or] at hd
    exact h'.kept place entry (h.kept place entry he hd.1) (hplaces ▸ hd.2)
  · intro p hmem
    rw [List.map_append, List.map_append]
    rcases List.mem_append.mp hmem with hmem | hmem
    · obtain ⟨data, place, hread, hr, he, hv⟩ := h.carried p hmem
      exact ⟨data, place, hread, hr.keeps h.plain h'.keeps, stays he hv,
        hv.imp_right (List.mem_append_left _)⟩
    · obtain ⟨data, place, hread, hr, he, hv⟩ := h'.carried p hmem
      obtain ⟨old, held, ho, hoe, ho', hoe'⟩ := h.exists_source hp hs (List.mem_map_of_mem hmem)
      have hsame : after.readFile p.1 = .ok held := h.plain.readFile_eq_ok_iff.mpr ⟨old, ho', hoe'⟩
      rw [hread] at hsame
      refine ⟨data, place, ?_, hr, he, ?_⟩
      · rw [Except.ok.inj hsame]
        exact hp.readFile_eq_ok_iff.mpr ⟨old, ho, hoe⟩
      · rcases hv with hn | hv
        · exact (h.vacant hn).imp_right (List.mem_append_left _)
        · exact .inr (List.mem_append_right _ (hplaces ▸ hv))
  · rw [List.map_append, List.nodup_append]
    refine ⟨h.nodup, h'.nodup, ?_⟩
    rintro target ht target' ht' rfl
    obtain ⟨p, hmem, rfl⟩ := List.mem_map.mp ht
    obtain ⟨q, hmem', heq⟩ := List.mem_map.mp ht'
    obtain ⟨data, place, _, hr, he, hv⟩ := h.carried p hmem
    obtain ⟨data', place', _, hr', _, hv'⟩ := h'.carried q hmem'
    rw [heq] at hr'
    have hplace := hr'.unique (hr.keeps h.plain h'.keeps)
    rw [hplace] at hv'
    rcases hv' with hn | hv'
    · simp [hn] at he
    · exact notMem_places hp hs hv (hplaces ▸ hv')

/-- What has been moved can be read at its new path, and what has not at its old one. -/
theorem readFile (h : tree.Moved after done) (hp : tree.Plain) {path : Text} {data : FileData}
    (hread : tree.readFile path = .ok data)
    (hd : ∀ p ∈ done, tree.place? p.1 ≠ tree.place? path) : after.readFile path = .ok data := by
  obtain ⟨place, hr, he⟩ := hp.readFile_eq_ok_iff.mp hread
  refine h.plain.readFile_eq_ok_iff.mpr ⟨place, hr.keeps hp h.keeps, h.kept place _ he ?_⟩
  intro hm
  rw [List.map_map] at hm
  obtain ⟨p, hmem, hplace⟩ := List.mem_map.mp hm
  exact hd p hmem (hplace.trans (hp.place?_eq_some_iff.mpr ⟨_, hr, he⟩).symm)

end Moved

end FileTree

namespace Transfer

variable {tree : FileTree}

/-- Moving one file after the other, up to the first fault. -/
theorem moved_files (hp : tree.Plain) {planned : List PlannedFile}
    (hs : tree.Separate (planned.map (·.source))) :
    tree.Moved (files true tree planned).tree (files true tree planned).done := by
  induction planned generalizing tree with
  | nil => exact .of_grows (.refl hp)
  | cons planned rest ih =>
    obtain ⟨old, data, hr, ho, _⟩ := hs.exists_file hp
      (show planned.source ∈ (planned :: rest).map (·.source) by simp)
    have hcarry (target : Text) (ht : freeTarget? tree planned.target = some target) :
        (∃ after, (∃ place, tree.Reaches target place ∧ tree.lookup? place = none ∧
              after = tree.relocated old place) ∧ carry true tree planned.source target = ⟨after, none⟩) ∨
          ∃ fault, carry true tree planned.source target = ⟨tree, some fault⟩ := by
      rcases hp.move_cases hr ho nofun (exists?_of_freeTarget? ht) with ⟨place, hreach, hn, hc⟩ | hc
      · exact .inl ⟨_, ⟨place, hreach, hn, rfl⟩, hc⟩
      · exact .inr hc
    rcases files_cons_cases rest hcarry with
      ⟨target, _, entries, _, ⟨place, hreach, hn, rfl⟩, he⟩ | ⟨entries, fault, he⟩
    · have hfirst := FileTree.Moved.of_relocated hp hr ho hreach hn
      have hs' : tree.Separate ([(planned.source, target)].map (·.1) ++ rest.map (·.source)) := hs
      have hrest := ih hfirst.plain (hfirst.separate hp hs')
      rw [he]
      refine hfirst.trans hrest hp ?_
      obtain ⟨undone, hu⟩ := exists_undone true (tree.relocated old place) rest
      rw [hu, ← List.append_assoc] at hs'
      exact hs'.of_append_left
    · rw [he]
      exact .of_grows (.refl hp)

/-- Moving the files of a plan, after its directories were made. -/
theorem moved_ofPlan (hp : tree.Plain) {plan : Plan}
    (hs : tree.Separate (plan.files.map (·.source))) :
    tree.Moved (ofPlan true tree plan).tree (ofPlan true tree plan).done := by
  have hg := grows_prepared hp plan
  have hfirst := FileTree.Moved.of_grows hg
  rw [ofPlan_eq]
  split
  · refine hfirst.trans (moved_files hg.plain (hfirst.separate hp hs)) hp ?_
    obtain ⟨undone, hu⟩ := exists_undone true (prepared tree plan).tree plan.files
    rw [hu] at hs
    exact hs.of_append_left
  · rw [done_prepared]
    exact hfirst

/-- Moving photos loses none, at whatever fault it ends. Every entry is where it was unless it was
moved, and each file that was moved can be read at its new path, which it has to itself. -/
theorem moving_keeps_files (records : List Record) (pattern : Pattern) (levels : List Pattern)
    (directory : Text) (valid : List Text) (hp : tree.Plain)
    (hs : tree.Separate (records.map (·.source))) :
    let plan := Plan.ofRecords tree records pattern levels directory valid
    let run := ofPlan true tree plan
    run.tree.files.Perm tree.files ∧
      (∀ place entry, tree.lookup? place = some entry →
        (∀ p ∈ run.done, tree.place? p.1 ≠ some place) → run.tree.lookup? place = some entry) ∧
      (∀ path data, tree.readFile path = .ok data →
        (∀ p ∈ run.done, tree.place? p.1 ≠ tree.place? path) →
          run.tree.readFile path = .ok data) ∧
      (run.done.map (·.2)).Nodup ∧
      (∀ p ∈ run.done, ∃ data, tree.readFile p.1 = .ok data ∧ run.tree.readFile p.2 = .ok data) ∧
      run.done.map (·.1) <+: plan.files.map (·.source) ∧
      (run.fault = none → run.done.map (·.1) = plan.files.map (·.source)) := by
  intro plan run
  have hm : tree.Moved run.tree run.done := moved_ofPlan hp (hs.map_source_files tree pattern levels directory valid)
  have hdone : ∃ undone, plan.files.map (·.source) = run.done.map (·.1) ++ undone ∧
      (run.fault = none → undone = []) := exists_undone_ofPlan true tree plan
  obtain ⟨undone, hu, hf⟩ := hdone
  refine ⟨by rw [hm.files], ?_, fun path data => hm.readFile hp, hm.nodup, ?_, ?_, ?_⟩
  · intro place entry he hd
    apply hm.kept place entry he
    intro hmem
    rw [List.map_map] at hmem
    obtain ⟨p, hpm, hplace⟩ := List.mem_map.mp hmem
    exact hd p hpm hplace
  · intro p hpm
    obtain ⟨data, place, hread, hr, he, _⟩ := hm.carried p hpm
    exact ⟨data, hread, hm.plain.readFile_eq_ok_iff.mpr ⟨place, hr, he⟩⟩
  · exact ⟨undone, hu.symm⟩
  · intro hnone
    rw [hu, hf hnone, List.append_nil]

/-- Two photos in the working directory, the first of which has the name that the second is to get. -/
private def inPlace : FileTree where
  entries := [(["p_2.jpg".toList], .file (.ofText ['a'] 0)), (["q.jpg".toList], .file (.ofText ['b'] 0))]
  working := []

private theorem plain_inPlace : inPlace.Plain := by decide

private theorem reaches_inPlace {name : Text} (h : name ∈ ["p_2.jpg".toList, "q.jpg".toList]) :
    ∃ data, inPlace.Reaches name [name] ∧ inPlace.lookup? [name] = some (.file data) := by
  simp only [List.mem_cons, List.not_mem_nil, or_false] at h
  rcases h with rfl | rfl
  · exact ⟨.ofText ['a'] 0, ⟨⟨by decide, by decide, by decide⟩, rfl⟩, rfl⟩
  · exact ⟨.ofText ['b'] 0, ⟨⟨by decide, by decide, by decide⟩, rfl⟩, rfl⟩

private theorem separate_inPlace : inPlace.Separate ["p_2.jpg".toList, "q.jpg".toList] where
  isFile name hm := by
    obtain ⟨data, hr, he⟩ := reaches_inPlace hm
    exact plain_inPlace.isFile_iff.mpr ⟨[name], data, hr, he⟩
  nodup := by
    have hplaces : ["p_2.jpg".toList, "q.jpg".toList].map inPlace.place? =
        ["p_2.jpg".toList, "q.jpg".toList].map fun name => some [name] := by
      apply List.map_congr_left
      intro name hm
      obtain ⟨data, hr, he⟩ := reaches_inPlace hm
      exact plain_inPlace.place?_eq_some_iff.mpr ⟨_, hr, he⟩
    rw [hplaces]
    decide

private theorem plan_inPlace :
    Plan.ofRecords inPlace [.empty "p_2.jpg", .empty "q.jpg"] (.compile ['p']) [] ['.'] [".jpg"] =
      ⟨[⟨"p_2.jpg".toList, "p_1.jpg".toList⟩, ⟨"q.jpg".toList, "p_2.jpg".toList⟩], []⟩ := by
  have hnamed : [Record.empty "p_2.jpg", .empty "q.jpg"].map
      (NamedRecord.ofRecord (.compile ['p']) [] [".jpg"]) =
        [⟨"p_2.jpg", ['p'], ".jpg", []⟩, ⟨"q.jpg", ['p'], ".jpg", []⟩] := by decide +kernel
  rw [Plan.ofRecords, hnamed]
  cbv

theorem moving_in_place_keeps_files :
    let plan := Plan.ofRecords inPlace [.empty "p_2.jpg", .empty "q.jpg"]
      (.compile ['p']) [] ['.'] [".jpg"]
    let run := ofPlan true inPlace plan
    inPlace.Plain ∧ inPlace.Separate ["p_2.jpg".toList, "q.jpg".toList] ∧ run.fault = none ∧
      run.done = [("p_2.jpg".toList, "p_1.jpg".toList), ("q.jpg".toList, "p_2.jpg".toList)] ∧
      run.tree.files.Perm inPlace.files ∧ (run.done.map (·.2)).Nodup ∧
      ∃ data, inPlace.readFile "q.jpg" = .ok data ∧ run.tree.readFile "p_2.jpg" = .ok data := by
  intro plan run
  have hrun : run.fault = none ∧
      run.done = [("p_2.jpg".toList, "p_1.jpg".toList), ("q.jpg".toList, "p_2.jpg".toList)] := by
    simp only [run, plan, plan_inPlace]
    cbv
  obtain ⟨hf, _, _, hn, hcarried, _⟩ := moving_keeps_files [.empty "p_2.jpg", .empty "q.jpg"]
    (.compile ['p']) [] ['.'] [".jpg"] plain_inPlace separate_inPlace
  exact ⟨plain_inPlace, separate_inPlace, hrun.1, hrun.2, hf, hn,
    hcarried ("q.jpg".toList, "p_2.jpg".toList) (hrun.2 ▸ List.mem_cons_of_mem _ (List.mem_singleton_self _))⟩

end Transfer

end PhotoNaming
