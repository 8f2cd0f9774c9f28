import Mathlib
import PhotoNaming.Proofs.Transfer.Preparing
import PhotoNaming.Proofs.Transfer.Receiving

/-! Copying files. A run adds the directories and one file for each that it gets to, and the path of
that file is the one that was free for it in the beginning: no copy changes where a later one goes. -/
namespace PhotoNaming

open PhotoNaming.Path (IsName slashed)

/-- One copy: the planned file, the path it was copied to, its place, and what was copied. -/
structure Copy where
  planned : PlannedFile
  target : Text
  place : Location
  data : FileData

namespace Copy

def entry (c : Copy) : Location × Entry := (c.place, .file c.data)

def paths (c : Copy) : Text × Text := (c.planned.source, c.target)

end Copy

/-- What is the case after directories were made and files copied as planned, as far as that went. There
is one entry more for each, and each copy is at the path that was free for it in the beginning. -/
structure Copied (tree : FileTree) (made : List (Text × Location)) (planned : List PlannedFile)
    (run : Transfer) (copies : List Copy) : Prop where
  tree_eq : run.tree =
    tree.extended (made.map (fun d => (d.2, .directory)) ++ copies.map Copy.entry)
  plain : run.tree.Plain
  directory : ∀ d ∈ made, run.tree.entryAt d.1 = .ok (d.2, .directory)
  done_eq : run.done = copies.map Copy.paths
  in_order : copies.map (·.planned) <+: planned
  no_fault : run.fault = none ↔ copies.map (·.planned) = planned
  free : ∀ c ∈ copies, freeTarget? tree c.planned.target = some c.target
  source : ∀ c ∈ copies, tree.readFile c.planned.source = .ok c.data
  target : ∀ c ∈ copies, run.tree.entryAt c.target = .ok (c.place, .file c.data)

/-- What was reported before does not change what is copied. -/
theorem Copied.behind {tree : FileTree} {made : List (Text × Location)} {planned : List PlannedFile}
    {run : Transfer} {copies : List Copy} (h : Copied tree made planned run copies) (entries : List Journal.Entry) :
    Copied tree made planned (run.behind entries []) copies :=
  ⟨h.tree_eq, h.plain, h.directory, h.done_eq, h.in_order, h.no_fault, h.free, h.source, h.target⟩

namespace FileTree

variable {tree : FileTree} {place : Location} {data : FileData}

/-- A new file is in the way of those paths only that lead to its place. -/
theorem exists?_inserted (hp : tree.Plain) (hn : tree.lookup? place = none)
    (hplain : (tree.inserted place (.file data)).Plain) {path : Text} (h : ¬ tree.Reaches path place) :
    (tree.inserted place (.file data)).exists? path = tree.exists? path := by
  rw [Bool.eq_iff_iff, hplain.exists?_iff, hp.exists?_iff]
  constructor
  · rintro ⟨other, entry, hr, he⟩
    have hr' := hr.keeps hplain (inserted_keeps hn)
    rw [lookup?_inserted (ne_nil_of_lookup?_none hn) hn, if_neg] at he
    · exact ⟨other, entry, hr', he⟩
    · rintro rfl
      exact h hr'
  · rintro ⟨other, entry, hr, he⟩
    exact ⟨other, entry, hr.keeps hp (keeps_inserted _ _ _), lookup?_inserted_of_some he⟩

end FileTree

namespace Transfer

variable {tree : FileTree} {directory : Text} {base : Location}

/-- A run that stops at once copies nothing. -/
theorem copied_fault (hp : tree.Plain) {planned : List PlannedFile} (hne : planned ≠ [])
    {run : Transfer} (htree : run.tree = tree) (hd : run.done = []) (hf : run.fault ≠ none) :
    Copied tree [] planned run [] where
  tree_eq := by simp [htree]
  plain := htree ▸ hp
  directory := by simp
  done_eq := hd
  in_order := List.nil_prefix
  no_fault := by simp [hf, Ne.symm hne]
  free := by simp
  source := by simp
  target := by simp

/-- A copy that is made first leaves the paths of the others as they were to be. -/
theorem copied_cons (hp : tree.Plain) {f : PlannedFile} {rest : List PlannedFile} {target : Text}
    {place : Location} {data : FileData} (ht : freeTarget? tree f.target = some target)
    (hread : tree.readFile f.source = .ok data) (hreach : tree.Reaches target place)
    (hn : tree.lookup? place = none) (hs : ∀ g ∈ rest, tree.isFile g.source = true)
    (ha : ∀ g ∈ rest, Apart tree f g) {run : Transfer} {copies : List Copy}
    (hplain : (tree.inserted place (.file data)).Plain)
    (h : Copied (tree.inserted place (.file data)) [] rest run copies)
    (entries : List Journal.Entry) :
    Copied tree [] (f :: rest) (run.behind entries [(f.source, target)])
      (⟨f, target, place, data⟩ :: copies) where
  tree_eq := by
    rw [tree_behind, h.tree_eq, FileTree.extended_inserted]
    rfl
  plain := h.plain
  directory := by simp
  done_eq := by
    rw [done_behind, h.done_eq]
    rfl
  in_order := List.cons_prefix_cons.mpr ⟨rfl, h.in_order⟩
  no_fault := by
    rw [fault_behind, h.no_fault]
    simp
  free c hc := by
    rcases List.mem_cons.mp hc with rfl | hc
    · exact ht
    · have hm := ha c.planned (h.in_order.subset (List.mem_map_of_mem hc))
      rw [← h.free c hc]
      symm
      apply freeTarget?_congr
      intro path hpath
      exact FileTree.exists?_inserted hp hn hplain
        (hm target (List.mem_of_find?_eq_some ht) path hpath place hreach)
  source c hc := by
    rcases List.mem_cons.mp hc with rfl | hc
    · exact hread
    · have hm := hs c.planned (h.in_order.subset (List.mem_map_of_mem hc))
      rw [← hp.readFile_extended hplain hm]
      exact h.source c hc
  target c hc := by
    rcases List.mem_cons.mp hc with rfl | hc
    · have hr := (hreach.keeps hp (FileTree.keeps_inserted _ _ _)).keeps hplain
        (FileTree.keeps_extended _ (copies.map Copy.entry))
      have he := FileTree.lookup?_extended_of_some (copies.map Copy.entry)
        (show (tree.inserted place (.file data)).lookup? place = some (.file data) by
          rw [FileTree.lookup?_inserted (FileTree.ne_nil_of_lookup?_none hn) hn, if_pos rfl])
      have htree := h.tree_eq
      rw [List.map_nil, List.nil_append] at htree
      rw [← htree] at hr he
      exact h.plain.entryAt_eq_ok_iff.mpr ⟨hr, he⟩
    · exact h.target c hc

/-- Copying one file after the other, up to the first fault. -/
theorem exists_copied_files (hp : tree.Plain) {planned : List PlannedFile}
    (hs : ∀ f ∈ planned, tree.isFile f.source = true) (ha : planned.Pairwise (Apart tree)) :
    ∃ copies, Copied tree [] planned (files false tree planned) copies := by
  induction planned generalizing tree with
  | nil =>
    rw [files]
    exact ⟨[], by simp, hp, by simp, rfl, List.nil_prefix, by simp, by simp, by simp, by simp⟩
  | cons f rest ih =>
    obtain ⟨old, data, hr, ho⟩ := hp.isFile_iff.mp (hs f (by simp))
    have hread : tree.readFile f.source = .ok data := hp.readFile_eq_ok_iff.mpr ⟨old, hr, ho⟩
    have hcarry (target : Text) (ht : freeTarget? tree f.target = some target) :
        (∃ after, (∃ place, tree.Reaches target place ∧ tree.lookup? place = none ∧
              after = tree.inserted place (.file data)) ∧ carry false tree f.source target = ⟨after, none⟩) ∨
          ∃ fault, carry false tree f.source target = ⟨tree, some fault⟩ := by
      rcases hp.copy_cases hread (exists?_of_freeTarget? ht) with ⟨place, hreach, hn, hc⟩ | hc
      · exact .inl ⟨_, ⟨place, hreach, hn, rfl⟩, hc⟩
      · exact .inr hc
    rcases files_cons_cases rest hcarry with
      ⟨target, _, entries, ht, ⟨place, hreach, hn, rfl⟩, he⟩ | ⟨entries, fault, he⟩
    · have hplain : (tree.inserted place (.file data)).Plain := hp.inserted hreach hn (by simp)
      obtain ⟨hfirst, hrest⟩ := List.pairwise_cons.mp ha
      obtain ⟨copies, hcopied⟩ := ih hplain
        (fun g hg => hp.isFile_extended hplain (hs g (by simp [hg])))
        (hrest.imp (hp.receives_inserted hreach hn data).apart)
      rw [he]
      exact ⟨_, copied_cons hp ht hread hreach hn (fun g hg => hs g (by simp [hg])) hfirst hplain
        hcopied entries⟩
    · rw [he]
      exact ⟨[], copied_fault hp (List.cons_ne_nil f rest) rfl rfl (Option.some_ne_none fault)⟩

/-- Copies made behind new directories, which are in no copy's way. -/
theorem copied_directories (hp : tree.Plain) {plan : Plan} {branches made : List (List Text)}
    (hm : Prepares tree plan directory base branches made)
    (hs : ∀ f ∈ plan.files, tree.isFile f.source = true)
    (hfree : ∀ f ∈ plan.files,
      freeTarget? (tree.withDirectories base made) f.target = freeTarget? tree f.target)
    {run : Transfer} {copies : List Copy} (h : Copied (prepared tree plan).tree [] plan.files run copies) :
    Copied tree (made.map fun names => (Path.join directory (slashed names), base ++ names)) plan.files
      run copies where
  tree_eq := by
    rw [h.tree_eq, hm.tree_eq, FileTree.withDirectories, FileTree.extended_extended, List.map_map]
    rfl
  plain := h.plain
  directory d hd := by
    obtain ⟨names, hmem, rfl⟩ := List.mem_map.mp hd
    have ho := (hm.opens names hmem).keeps hm.plain
      (FileTree.keeps_extended _ (copies.map Copy.entry))
    have htree := h.tree_eq
    rw [List.map_nil, List.nil_append] at htree
    rw [← htree] at ho
    exact h.plain.entryAt_eq_ok_iff.mpr ⟨ho.reaches, ho.directory⟩
  done_eq := h.done_eq
  in_order := h.in_order
  no_fault := h.no_fault
  free c hc := by
    rw [← hfree c.planned (h.in_order.subset (List.mem_map_of_mem hc)), ← hm.tree_eq]
    exact h.free c hc
  source c hc := by
    have hfile := hs c.planned (h.in_order.subset (List.mem_map_of_mem hc))
    have hplain := hm.plain
    have hread := h.source c hc
    rw [hm.tree_eq] at hplain hread
    rwa [FileTree.withDirectories, hp.readFile_extended hplain hfile] at hread
  target := h.target

variable (records : List Record) (pattern : Pattern) (levels : List Pattern) (valid : List Text)

theorem exists_copied_ofPlan (hp : tree.Plain) (hd : tree.isDirectory directory = true)
    (hs : ∀ r ∈ records, tree.isFile r.source = true) :
    let plan := Plan.ofRecords tree records pattern levels directory valid
    let run := ofPlan false tree plan
    ∃ made copies, Copied tree made plan.files run copies ∧
      made.map (·.1) <+: Text.sorted plan.newDirectories ∧
      (made.map (·.1) ≠ Text.sorted plan.newDirectories → copies = []) ∧
      (run.fault = none → made.map (·.1) = Text.sorted plan.newDirectories) := by
  intro plan run
  obtain ⟨base, ho⟩ := hp.isDirectory_iff_opens.mp hd
  obtain ⟨branches, made, hbranches, _, hm⟩ := exists_prepares records pattern levels valid ho hp
  have hplain := hm.plain
  rw [hm.tree_eq] at hplain
  have hfiles : ∀ f ∈ plan.files, tree.isFile f.source = true :=
    fun f hf => Plan.isFile_of_mem_files hs hf
  have hfree : ∀ f ∈ plan.files,
      freeTarget? (tree.withDirectories base made) f.target = freeTarget? tree f.target :=
    fun f hf => Plan.freeTarget?_withDirectories ho hp
      (fun names hmem => hbranches names (hm.in_order.subset hmem)) hplain hf
  have hpaths : (made.map fun names => (Path.join directory (slashed names), base ++ names)).map
      (·.1) = made.map fun names => Path.join directory (slashed names) := by
    rw [List.map_map]
    rfl
  have hsorted : (made.map fun names => (Path.join directory (slashed names), base ++ names)).map
      (·.1) <+: Text.sorted plan.newDirectories := by
    rw [hpaths, ← hm.paths]
    exact hm.in_order.map _
  have hrun : run = ofPlan false tree plan := rfl
  rw [ofPlan_eq] at hrun
  by_cases hf : (prepared tree plan).fault = none
  · rw [if_pos hf] at hrun
    obtain ⟨copies, hc⟩ := exists_copied_files hm.plain
      (fun f hmem => hm.tree_eq ▸ hp.isFile_extended hplain (hfiles f hmem))
      (Plan.pairwise_apart hm.plain)
    have hall : (made.map fun names => (Path.join directory (slashed names), base ++ names)).map
        (·.1) = Text.sorted plan.newDirectories := by
      rw [hpaths, hm.no_fault.mp hf, hm.paths]
    rw [hrun]
    exact ⟨_, copies, copied_directories hp hm hfiles hfree (hc.behind _), hsorted,
      fun hne => absurd hall hne, fun _ => hall⟩
  · rw [if_neg hf] at hrun
    have hnil : plan.files ≠ [] := by
      cases branches with
      | nil => exact absurd (hm.no_fault.mpr (List.prefix_nil.mp hm.in_order)) hf
      | cons names branches =>
        obtain ⟨_, r, hr, _⟩ := hbranches names (by simp)
        exact Plan.files_ne_nil_of_mem hr
    have hstop := copied_fault hm.plain hnil rfl (done_prepared tree plan) hf
    rw [hrun]
    exact ⟨_, [], copied_directories hp hm hfiles hfree hstop, hsorted, fun _ => rfl,
      fun hnone => absurd hnone hf⟩

/-- Copying photos into a directory adds the missing directories and one file for each photo, at the path
that was free for it in the beginning, and leaves all else as it was. If it ends with a fault, the first
directories and the first copies are there; no copy is, if a directory could not be made. -/
theorem copying_adds_files (directory : Text) (hp : tree.Plain)
    (hd : tree.isDirectory directory = true) (hs : ∀ r ∈ records, tree.isFile r.source = true) :
    let plan := Plan.ofRecords tree records pattern levels directory valid
    let run := ofPlan false tree plan
    ∃ made copies, Copied tree made plan.files run copies ∧
      (∀ place entry, tree.lookup? place = some entry → run.tree.lookup? place = some entry) ∧
      made.map (·.1) <+: Text.sorted plan.newDirectories ∧
      (made.map (·.1) ≠ Text.sorted plan.newDirectories → copies = []) ∧
      (run.fault = none → made.map (·.1) = Text.sorted plan.newDirectories ∧
        run.done.map (fun p => (p.1, some p.2)) =
          plan.files.map fun f => (f.source, freeTarget? tree f.target)) := by
  intro plan run
  obtain ⟨made, copies, hc, hpre, hnone, hall⟩ :=
    exists_copied_ofPlan records pattern levels valid hp hd hs
  refine ⟨made, copies, hc, ?_, hpre, hnone, fun hf => ⟨hall hf, ?_⟩⟩
  · intro place entry he
    rw [hc.tree_eq]
    exact FileTree.lookup?_extended_of_some _ he
  · rw [hc.done_eq, ← hc.no_fault.mp hf, List.map_map, List.map_map]
    apply List.map_congr_left
    intro c hm
    simp only [Function.comp, Copy.paths, hc.free c hm]

/-- A working directory with two photos in it. -/
private def twoPhotos : FileTree where
  entries := [(["photos"], .directory), (["photos", "in.jpg"], .file (.ofText ['a'] 0)),
    (["photos", "on.jpg"], .file (.ofText ['b'] 0))]
  working := ["photos".toList]

private theorem plan_twoPhotos :
    Plan.ofRecords twoPhotos [.empty "in.jpg", .empty "on.jpg"] (.compile ['p']) [.compile ['x']] ['.'] [".jpg"] =
      ⟨[⟨"in.jpg".toList, "x/p_1.jpg".toList⟩, ⟨"on.jpg".toList, "x/p_2.jpg".toList⟩], ["./x/".toList]⟩ := by
  have hnamed : [Record.empty "in.jpg", .empty "on.jpg"].map
      (NamedRecord.ofRecord (.compile ['p']) [.compile ['x']] [".jpg"]) =
        [⟨"in.jpg", ['p'], ".jpg", ["x/"]⟩, ⟨"on.jpg", ['p'], ".jpg", ["x/"]⟩] := by decide +kernel
  rw [Plan.ofRecords, hnamed]
  cbv

theorem copying_into_level_adds_files :
    let plan := Plan.ofRecords twoPhotos [.empty "in.jpg", .empty "on.jpg"] (.compile ['p'])
      [.compile ['x']] ['.'] [".jpg"]
    let run := ofPlan false twoPhotos plan
    twoPhotos.Plain ∧ twoPhotos.isDirectory ['.'] = true ∧
      (∀ r ∈ [Record.empty "in.jpg", .empty "on.jpg"], twoPhotos.isFile r.source = true) ∧
      run.fault = none ∧
      run.done = [("in.jpg".toList, "x/p_1.jpg".toList), ("on.jpg".toList, "x/p_2.jpg".toList)] ∧
      ∃ made copies, made.map (·.1) = ["./x/".toList] ∧ copies.length = 2 ∧
        Copied twoPhotos made plan.files run copies := by
  intro plan run
  have hp : twoPhotos.Plain := by decide
  have hd : twoPhotos.isDirectory ['.'] = true := by cbv
  have hs : ∀ r ∈ [Record.empty "in.jpg", .empty "on.jpg"], twoPhotos.isFile r.source = true := by
    intro r hr
    simp only [List.mem_cons, List.not_mem_nil, or_false] at hr
    rcases hr with rfl | rfl <;> cbv
  have hrun : run.fault = none ∧
      run.done = [("in.jpg".toList, "x/p_1.jpg".toList), ("on.jpg".toList, "x/p_2.jpg".toList)] := by
    simp only [run, plan, plan_twoPhotos]
    cbv
  obtain ⟨made, copies, hc, _, _, _, hall⟩ := copying_adds_files [.empty "in.jpg", .empty "on.jpg"]
    (.compile ['p']) [.compile ['x']] [".jpg"] ['.'] hp hd hs
  refine ⟨hp, hd, hs, hrun.1, hrun.2, made, copies, ?_, ?_, hc⟩
  · rw [(hall hrun.1).1, plan_twoPhotos]
    cbv
  · have hlength := congrArg List.length hc.done_eq
    rw [hrun.2, List.length_map] at hlength
    exact hlength.symm

end Transfer

end PhotoNaming
