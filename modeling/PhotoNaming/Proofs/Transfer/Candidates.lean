import PhotoNaming.Proofs.Plan.Directories
import PhotoNaming.Proofs.Transfer.Steps
import Mathlib.Data.List.Find

/-! The paths that are tried for a planned file. They lead to places that no other planned file's can
lead to, and new directories do not stand there, so which of them is free is settled beforehand. -/
namespace PhotoNaming

open PhotoNaming.Path (IsName slashed)

/-- Besides a target, what is tried has a number from 01 to 99 in brackets before its extension. -/
theorem mem_candidates_iff {target c : Text} :
    c ∈ candidates target ↔ c = target ∨ ∃ k, 1 ≤ k ∧ k ≤ maxSuffix ∧
      c = (Path.splitExtension target).1 ++ '(' :: Text.zeroPadded 2 k ++
        ')' :: (Path.splitExtension target).2 := by
  rw [candidates, List.mem_cons, List.mem_map]
  apply or_congr_right
  constructor
  · rintro ⟨i, hi, rfl⟩
    exact ⟨i + 1, Nat.succ_pos i, List.mem_range.mp hi, rfl⟩
  · rintro ⟨k, hk, hmax, rfl⟩
    exact ⟨k - 1, List.mem_range.mpr (by omega), by rw [Nat.sub_add_cancel hk]⟩

namespace NamedRecord

variable {depth : Nat} {n : NamedRecord} {names : List Text}

/-- All that is tried for a target is its name, with a mark behind the number. -/
theorem Sound.mem_candidates (h : n.Sound depth) (hn : ∀ m ∈ names, IsName m)
    (hd : n.directories = FileName.nested [] names) {directory target : Text} {number : Nat}
    (ht : target = n.target directory number) {c : Text} (hc : c ∈ candidates target) :
    ∃ mark, IsMark mark ∧
      c = Path.normal (Path.join (Path.join directory (slashed names)) (n.markedName number mark)) := by
  have hsplit := h.splitExtension_markedName .nil number
    (Path.getLast?_root_slashed directory (Path.normalParts directory ++ names))
  rw [markedName_nil, ← h.target_eq hn hd, ← ht, List.append_nil] at hsplit
  rcases mem_candidates_iff.mp hc with rfl | ⟨k, _, _, rfl⟩
  · refine ⟨[], .nil, ?_⟩
    rw [Path.normal_join directory hn (h.isName_markedName .nil number), ht, h.target_eq hn hd,
      markedName_nil]
  · have hm : IsMark ('(' :: Text.zeroPadded 2 k ++ [')']) := .inr ⟨k, rfl⟩
    refine ⟨_, hm, ?_⟩
    rw [Path.normal_join directory hn (h.isName_markedName hm number), hsplit, markedName]
    simp

end NamedRecord

/-- What is tried for one planned file leads nowhere that what is tried for the other leads to. -/
def Apart (tree : FileTree) (f g : PlannedFile) : Prop :=
  ∀ c ∈ candidates f.target, ∀ c' ∈ candidates g.target, ∀ place,
    tree.Reaches c place → ¬ tree.Reaches c' place

theorem freeTarget?_congr {tree after : FileTree} {target : Text}
    (h : ∀ c ∈ candidates target, after.exists? c = tree.exists? c) :
    freeTarget? after target = freeTarget? tree target :=
  List.find?_congr fun c hc => by rw [h c hc]

namespace Plan

open NamedRecord (ofRecord sound_ofRecord)

variable {tree after : FileTree} {pattern : Pattern} {levels : List Pattern} {directory : Text}
  {valid : List Text} {base place : Location} {r r' : Record} {number number' : Nat} {c : Text}

/-- The paths tried for a planned file lead on from the directory for new files by the names of the
levels and one more. -/
theorem exists_mark_of_mem_candidates
    (hc : c ∈ candidates (fileOf pattern levels directory valid number r).target) :
    ∃ mark, IsMark mark ∧
      (∀ m ∈ levelNames levels r ++ [(ofRecord pattern levels valid r).markedName number mark],
        IsName m) ∧
      ∀ tree : FileTree,
        tree.walk (tree.start c) (Path.parts c) =
          tree.walk (tree.start directory) (Path.normalParts directory ++ (levelNames levels r ++
            [(ofRecord pattern levels valid r).markedName number mark])) := by
  have hs := sound_ofRecord pattern levels valid r
  have hn : ∀ m ∈ levelNames levels r, IsName m := fun m hm => isName_of_mem_levelNames hm
  have hd : (ofRecord pattern levels valid r).directories =
      FileName.nested [] (levelNames levels r) := rfl
  have ht : (fileOf pattern levels directory valid number r).target =
      (ofRecord pattern levels valid r).target directory number := by simp only [fileOf]
  obtain ⟨mark, hm, he⟩ := hs.mem_candidates hn hd ht hc
  have hname := hs.isName_markedName hm number
  refine ⟨mark, hm, ?_, ?_⟩
  · intro m hmem
    rcases List.mem_append.mp hmem with hmem | hmem
    · exact hn m hmem
    · exact List.mem_singleton.mp hmem ▸ hname
  · intro tree
    rw [he]
    exact FileTree.walk_normal_join tree directory hn hname

/-- Planned files with different targets are apart: one name in one directory would have to have been
made from one stem, number and extension. -/
theorem apart (hp : tree.Plain)
    (hne : (fileOf pattern levels directory valid number r).target ≠
      (fileOf pattern levels directory valid number' r').target) :
    Apart tree (fileOf pattern levels directory valid number r)
      (fileOf pattern levels directory valid number' r') := by
  intro c hc c' hc' place hr hr'
  obtain ⟨mark, hm, hn, hw⟩ := exists_mark_of_mem_candidates hc
  obtain ⟨mark', hm', hn', hw'⟩ := exists_mark_of_mem_candidates hc'
  obtain ⟨base, hb, hwb⟩ := hr.exists_base hp (hw tree) (by simp) (hp.lookup?_start directory)
  have he := (hr.eq_of_walk hb hn ((hw tree).trans (FileTree.walk_append hwb))).2
  have he' := (hr'.eq_of_walk hb hn' ((hw' tree).trans (FileTree.walk_append hwb))).2
  rw [he] at he'
  obtain ⟨hnames, hlast⟩ := List.append_inj' (List.append_cancel_left he') (by simp)
  have hs := sound_ofRecord pattern levels valid r
  have hs' := sound_ofRecord pattern levels valid r'
  obtain ⟨hstem, hnumber, _, hx⟩ := hs.markedName_inj hs' hm hm' (List.cons.inj hlast).1
  refine hne ?_
  simp only [fileOf]
  rw [hs.target_eq (fun _ hm => isName_of_mem_levelNames hm) rfl,
    hs'.target_eq (fun _ hm => isName_of_mem_levelNames hm) rfl, NamedRecord.numberedName,
    NamedRecord.numberedName, hnames, hstem, hnumber, hx]

/-- New directories, which are at most as deep as there are levels, are no new files. -/
theorem exists?_withDirectories (ho : tree.Opens directory base) (hp : tree.Plain)
    {branches : List (List Text)} (hb : ∀ names ∈ branches, names.length ≤ levels.length)
    (hplain : (tree.withDirectories base branches).Plain)
    (hc : c ∈ candidates (fileOf pattern levels directory valid number r).target) :
    (tree.withDirectories base branches).exists? c = tree.exists? c := by
  have hk := FileTree.keeps_withDirectories tree base branches
  obtain ⟨mark, _, hn, hw⟩ := exists_mark_of_mem_candidates hc
  have hw (t : FileTree) (h : t.Opens directory base) :=
    (hw t).trans (FileTree.walk_append h.walk_normalParts)
  rw [Bool.eq_iff_iff, hplain.exists?_iff, hp.exists?_iff]
  constructor
  · rintro ⟨place, entry, hr, he⟩
    have ho' := ho.keeps hp hk
    obtain ⟨hshort, hplace⟩ := hr.eq_of_walk ho'.directory hn (hw _ ho')
    rw [FileTree.withDirectories, FileTree.lookup?_extended_of_notMem] at he
    · rw [hplace] at he
      exact ⟨_, entry, hp.reaches_of_lookup? hr.isPath ho.directory hn hshort (hw tree ho) he, he⟩
    · intro e hm heq
      obtain ⟨names, hmem, rfl⟩ := List.mem_map.mp hm
      have hlength := congrArg List.length (List.append_cancel_left (heq.trans hplace))
      have hle := hb names hmem
      simp only [levelNames, List.length_append, List.length_map, List.length_cons,
        List.length_nil] at hlength
      omega
  · rintro ⟨place, entry, hr, he⟩
    exact ⟨place, entry, hr.keeps hp hk, FileTree.lookup?_extended_of_some _ he⟩

variable {records : List Record}

/-- No two files of a plan are in each other's way. -/
theorem pairwise_apart (hp : after.Plain) :
    (Plan.ofRecords tree records pattern levels directory valid).files.Pairwise (Apart after) := by
  apply pairwise_target.imp_of_mem
  intro f g hf hg hne
  obtain ⟨r, _, number, rfl⟩ := exists_of_mem_files hf
  obtain ⟨r', _, number', rfl⟩ := exists_of_mem_files hg
  exact apart hp hne

/-- Which path is free for a planned file does not hang on new directories. -/
theorem freeTarget?_withDirectories (ho : tree.Opens directory base) (hp : tree.Plain)
    {branches : List (List Text)} (hb : ∀ names ∈ branches, IsBranch records levels names)
    (hplain : (tree.withDirectories base branches).Plain) {f : PlannedFile}
    (hf : f ∈ (Plan.ofRecords tree records pattern levels directory valid).files) :
    freeTarget? (tree.withDirectories base branches) f.target = freeTarget? tree f.target := by
  obtain ⟨r, _, number, rfl⟩ := exists_of_mem_files hf
  apply freeTarget?_congr
  intro c hc
  exact exists?_withDirectories ho hp (fun names hm => (hb names hm).length_le) hplain hc

theorem isFile_of_mem_files {current : FileTree} (hs : ∀ r ∈ records, current.isFile r.source = true)
    {f : PlannedFile} (hf : f ∈ (Plan.ofRecords tree records pattern levels directory valid).files) :
    current.isFile f.source = true := by
  obtain ⟨r, hr, number, rfl⟩ := exists_of_mem_files hf
  exact hs r hr

end Plan

end PhotoNaming
