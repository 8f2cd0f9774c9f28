import PhotoNaming.Proofs.FileTree.Depth
import PhotoNaming.Proofs.Transfer.Preparing
import PhotoNaming.Proofs.Transfer.Receiving

/-! Plans whose targets are all vacant. Neither the directories that are made nor the files that are dealt
with before it take the target of a file, so a run that comes through does just what was planned. -/
namespace PhotoNaming

open PhotoNaming.Path (IsName)

namespace Transfer

variable {tree : FileTree}

/-- A vacant target is the first path that is tried. -/
theorem freeTarget?_of_not_exists {target : Text} (h : tree.exists? target = false) :
    freeTarget? tree target = some target := by
  rw [freeTarget?, candidates, List.find?_cons_of_pos (by simp [h])]

/-- A run through files with vacant targets takes each to its own, if it comes through. -/
theorem done_files (hp : tree.Plain) (move : Bool) {planned : List PlannedFile}
    (hs : ∀ f ∈ planned, tree.isDirectory f.source = false) (ha : planned.Pairwise (Apart tree))
    (hv : ∀ f ∈ planned, tree.exists? f.target = false)
    (hnone : (files move tree planned).fault = none) :
    (files move tree planned).done = planned.map fun f => (f.source, f.target) := by
  induction planned generalizing tree with
  | nil => rfl
  | cons f rest ih =>
    have ht := freeTarget?_of_not_exists (hv f (by simp))
    obtain ⟨hfirst, hrest⟩ := List.pairwise_cons.mp ha
    rcases hp.carry_cases move (hs f (by simp)) (hv f (by simp)) with
      ⟨after, place, hreach, hr, hc⟩ | ⟨fault, hc⟩
    · obtain ⟨entries, he⟩ := files_cons_of_done rest ht hc
      rw [he, fault_behind] at hnone
      rw [he, done_behind, List.map_cons, List.singleton_append]
      congr 1
      refine ih hr.plain (fun g hg => hr.isDirectory_eq_false hp (hs g (by simp [hg])))
        (hrest.imp hr.apart) (fun g hg => ?_) hnone
      refine hr.exists?_eq_false hp (hv g (by simp [hg])) fun hreach' => ?_
      exact hfirst g hg f.target (by simp [candidates]) g.target (by simp [candidates]) place hreach
        hreach'
    · obtain ⟨entries, fault, he⟩ := files_cons_of_fault rest (.inr ⟨f.target, fault, ht, hc⟩)
      rw [he] at hnone
      cases hnone

end Transfer

namespace FileTree

/-- A path that leads to a directory, or is written in names from the root on. In either case it is known
how deep the directories are that may be made for what is below it. -/
def Steady (tree : FileTree) (directory : Text) : Prop :=
  tree.isDirectory directory = true ∨
    Path.isAbsolute directory = true ∧ ∀ n ∈ Path.components directory, IsName n

/-- What is there does not become a directory. -/
theorem Grows.isDirectory_eq {tree after : FileTree} {path : Text} (h : tree.Grows after) (hp : tree.Plain)
    (hex : tree.exists? path = true) : after.isDirectory path = tree.isDirectory path := by
  obtain ⟨place, entry, hr, he⟩ := hp.exists?_iff.mp hex
  rw [isDirectory, isDirectory, hp.entryAt_eq_ok_iff.mpr ⟨hr, he⟩,
    h.plain.entryAt_eq_ok_iff.mpr ⟨hr.keeps hp h.keeps, h.kept place entry he⟩]

end FileTree

namespace Plan

variable {tree after : FileTree} {records : List Record} {pattern : Pattern} {levels : List Pattern}
  {directory : Text} {valid : List Text} {r : Record} {number : Nat} {c : Text}

/-- Below a directory written in names from the root on, targets are deeper than new directories. -/
theorem exists?_growsTo (hp : tree.Plain) (ha : Path.isAbsolute directory = true)
    (hd : ∀ n ∈ Path.components directory, IsName n)
    (hg : tree.GrowsTo ((Path.components directory).length + levels.length) after)
    (hc : c ∈ candidates (fileOf pattern levels directory valid number r).target)
    (hv : tree.exists? c = false) : after.exists? c = false := by
  obtain ⟨mark, _, hn, hw⟩ := exists_mark_of_mem_candidates hc
  have hfront : Path.normalParts directory = Path.components directory := by
    rw [Path.normalParts_eq, Path.foldl_push_names _ hd, List.nil_append]
  rw [hfront] at hw
  have hstart (t : FileTree) : t.start directory = [] := by rw [FileTree.start, if_pos ha]
  have hall := List.forall_mem_append.mpr ⟨hd, hn⟩
  by_contra hex
  obtain ⟨place, entry, hr, he⟩ := hg.plain.exists?_iff.mp (by simpa using hex)
  obtain ⟨hshort, hplace⟩ :=
    hr.eq_of_walk (after.lookup?_nil) hall (by rw [hw after, hstart])
  rw [hg.below place, hplace] at he
  · rw [hp.exists?_iff.mpr ⟨_, entry, hp.reaches_of_lookup? hr.isPath (tree.lookup?_nil) hall hshort
      (by rw [hw tree, hstart]) he, he⟩] at hv
    cases hv
  · rw [hplace, levelNames]
    simp only [List.nil_append, List.length_append, List.length_map, List.length_singleton]
    omega

end Plan

namespace Transfer

variable {tree : FileTree} {directory : Text} {records : List Record} {pattern : Pattern}
  {levels : List Pattern} {valid : List Text}

/-- When the directories of a plan have been made, its targets are vacant as before. -/
theorem exists?_prepared (hp : tree.Plain) (hd : tree.Steady directory)
    (hv : ∀ f ∈ (Plan.ofRecords tree records pattern levels directory valid).files,
      tree.exists? f.target = false) :
    let plan := Plan.ofRecords tree records pattern levels directory valid
    ∀ f ∈ plan.files, (prepared tree plan).tree.exists? f.target = false := by
  intro plan f hf
  obtain ⟨r, _, number, rfl⟩ := Plan.exists_of_mem_files hf
  rcases hd with hd | ⟨ha, hd⟩
  · obtain ⟨base, ho⟩ := hp.isDirectory_iff_opens.mp hd
    obtain ⟨branches, made, hbranches, _, h⟩ := exists_prepares records pattern levels valid ho hp
    have hplain := h.plain
    rw [h.tree_eq] at hplain ⊢
    rw [Plan.exists?_withDirectories ho hp
      (fun names hm => (hbranches names (h.in_order.subset hm)).length_le) hplain (List.mem_cons_self ..)]
    exact hv _ hf
  · have hshallow : ∀ path ∈ plan.newDirectories, Path.isAbsolute path = true ∧
        (Path.components path).length ≤ (Path.components directory).length + levels.length := by
      intro path hm
      obtain ⟨⟨names, hb, rfl⟩, _⟩ := Plan.mem_newDirectories.mp hm
      have hrel := Path.isAbsolute_slashed hb.isName
      have hc := Path.components_slashed hb.isName []
      rw [List.append_nil, Path.components_nil, List.append_nil] at hc
      rw [Path.isAbsolute_join directory hrel, Path.components_join directory hrel, hc,
        List.length_append]
      exact ⟨ha, Nat.add_le_add_left hb.length_le _⟩
    have hg := making_prepared (FileTree.GrowsTo.making _) hp hshallow
    exact Plan.exists?_growsTo hp ha hd hg (List.mem_cons_self ..) (hv _ hf)

/-- A plan whose targets are all vacant is carried out to the letter, if it is carried out to its end. -/
theorem done_ofPlan (hp : tree.Plain) (move : Bool) (hd : tree.Steady directory)
    (hs : ∀ r ∈ records, tree.exists? r.source = true ∧ tree.isDirectory r.source = false)
    (hv : ∀ f ∈ (Plan.ofRecords tree records pattern levels directory valid).files,
      tree.exists? f.target = false)
    (hnone : (ofPlan move tree
      (Plan.ofRecords tree records pattern levels directory valid)).fault = none) :
    (ofPlan move tree (Plan.ofRecords tree records pattern levels directory valid)).done =
      (Plan.ofRecords tree records pattern levels directory valid).files.map
        fun f => (f.source, f.target) := by
  have hfree := exists?_prepared hp hd hv
  have hg := grows_prepared hp (Plan.ofRecords tree records pattern levels directory valid)
  rw [ofPlan_eq] at hnone ⊢
  split at hnone
  · rename_i hfirst
    rw [if_pos hfirst, done_behind, List.nil_append]
    refine done_files hg.plain move (fun f hf => ?_) (Plan.pairwise_apart hg.plain) hfree hnone
    obtain ⟨r, hr, number, rfl⟩ := Plan.exists_of_mem_files hf
    exact (hg.isDirectory_eq hp (hs r hr).1).trans (hs r hr).2
  · contradiction

end Transfer

end PhotoNaming
