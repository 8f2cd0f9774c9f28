import PhotoNaming.Source.Collection
import PhotoNaming.Proofs.FileTree.Following
import PhotoNaming.Proofs.Text.Sorted
import Mathlib.Data.List.Induction

/-! The directories that a walk visits, and what is listed in one. Each of them is visited once, before those
below it, and branches follow each other in the order of their names. -/
namespace PhotoNaming.Source

open PhotoNaming.Path (IsName slashed)
open PhotoNaming.FileTree (IsEntryName maxPathBytes)

section Paths

variable {path n m : Text} {names others : List Text}

@[simp] theorem pathBelow_nil (path : Text) : pathBelow path [] = path := rfl

theorem pathBelow_concat (path : Text) (names : List Text) (n : Text) :
    pathBelow path (names ++ [n]) = Path.join (pathBelow path names) n := by
  rw [pathBelow, List.foldl_concat]
  rfl

/-- Names that are joined one by one are written with a slash between each two. -/
theorem join_pathBelow (path : Text) (h : ∀ n ∈ names, IsName n) (hn : IsName n) :
    Path.join (pathBelow path names) n = Path.join path (slashed names ++ n) := by
  induction names using List.reverseRecOn generalizing n with
  | nil => rfl
  | append_singleton names m ih =>
    have hm : IsName m := h m (by simp)
    have hb : ∀ n ∈ names, IsName n := fun n hn => h n (by simp [hn])
    have hlast : (Path.join path (slashed names ++ m)).getLast? ≠ some '/' := by
      rw [Path.join_eq path (Path.isAbsolute_slashed_append hb hm.isAbsolute), ← List.append_assoc]
      exact Path.getLast?_append_name _ hm
    have hne : Path.join path (slashed names ++ m) ≠ [] := by
      rw [Path.join_eq path (Path.isAbsolute_slashed_append hb hm.isAbsolute)]
      simp [hm.ne_nil]
    calc Path.join (pathBelow path (names ++ [m])) n
        = Path.join (Path.join path (slashed names ++ m)) n := by rw [pathBelow_concat, ih hb hm]
      _ = Path.join path (slashed names ++ m) ++ ['/'] ++ n := by
        rw [Path.join, hn.isAbsolute, if_neg (by simp), if_neg (by simp [hne, hlast]),
          List.append_assoc]
        rfl
      _ = Path.join path (slashed (names ++ [m]) ++ n) := by
        rw [← Path.join_slashed_concat path hb hm, Path.join_slashed path h, List.append_assoc,
          ← Path.join_eq path (Path.isAbsolute_slashed_append h hn.isAbsolute)]

/-- A path below another one says by which names. -/
theorem join_pathBelow_inj (h : ∀ n ∈ names, IsName n) (hn : IsName n) (ho : ∀ n ∈ others, IsName n)
    (hm : IsName m) (he : Path.join (pathBelow path names) n = Path.join (pathBelow path others) m) :
    names = others ∧ n = m := by
  rw [join_pathBelow path h hn, join_pathBelow path ho hm,
    Path.join_eq path (Path.isAbsolute_slashed_append h hn.isAbsolute),
    Path.join_eq path (Path.isAbsolute_slashed_append ho hm.isAbsolute)] at he
  have hparts := congrArg Path.parts (List.append_cancel_left he)
  rw [Path.parts_slashed (fun n hn => (h n hn).no_slash), Path.parts_name hn.no_slash,
    Path.parts_slashed (fun n hn => (ho n hn).no_slash), Path.parts_name hm.no_slash] at hparts
  obtain ⟨hnames, hlast⟩ := List.append_inj' hparts rfl
  exact ⟨hnames, List.singleton_inj.mp hlast⟩

theorem byteCount_add_le_join (path : Text) (hn : IsName n) :
    byteCount path + byteCount n ≤ byteCount (Path.join path n) := by
  rw [Path.join_eq _ hn.isAbsolute, byteCount_append]
  refine Nat.add_le_add_right ?_ _
  rcases Path.join_nil_cases path with ⟨hj, he⟩ | ⟨_, he, hj⟩ | ⟨_, _, _, he, hj⟩
  · exact Nat.le_of_eq (by rw [hj, he])
  · exact Nat.le_of_eq (by rw [hj, ← he])
  · rw [hj, ← he, byteCount_append]
    exact Nat.le_add_right _ _

theorem byteCount_le_join (path : Text) (hn : IsName n) :
    byteCount path ≤ byteCount (Path.join path n) :=
  Nat.le_trans (Nat.le_add_right _ _) (byteCount_add_le_join path hn)

theorem byteCount_pathBelow_le (path : Text) (names : List Text) (h : ∀ n ∈ others, IsName n) :
    byteCount (pathBelow path names) ≤ byteCount (pathBelow path (names ++ others)) := by
  induction others using List.reverseRecOn with
  | nil => exact Nat.le_of_eq (by rw [List.append_nil])
  | append_singleton others n ih =>
    have hle := ih fun m hm => h m (by simp [hm])
    rw [← List.append_assoc, pathBelow_concat]
    exact Nat.le_trans hle (byteCount_le_join _ (h n (by simp)))

end Paths

variable {tree : FileTree} {extensions excluded : List Text} {top place : Location}
  {source name : Text} {names below : List Text} {recursive : Bool}

/-- The directories below one follow it, branch by branch. -/
theorem directories_eq (tree : FileTree) (excluded : List Text) (top : Location) (source : Text)
    (names : List Text) :
    directories tree excluded top source names =
      if tree.isDirectory (pathBelow source names) then
        names :: (branches tree excluded (top ++ names)).flatMap fun name =>
          directories tree excluded top source (names ++ [name])
      else [] := by
  have hflat := List.flatMap_subtype (l := (branches tree excluded (top ++ names)).attach)
    (f := fun name => directories tree excluded top source (names ++ [name.1]))
    (g := fun name => directories tree excluded top source (names ++ [name])) fun _ _ => rfl
  rw [directories, hflat, List.unattach_attach]

theorem mem_branches :
    name ∈ branches tree excluded place ↔
      name ∈ tree.names place ∧ tree.lookup? (place ++ [name]) = some .directory ∧
        name ∉ excluded := by
  simp [branches, FileTree.holdsDirectory_iff]

theorem pairwise_branches (hw : tree.WellFormed) :
    (branches tree excluded place).Pairwise (· < ·) :=
  Text.pairwise_lt_sorted ((hw.nodup_names place).filter _)

theorem mem_photoNames :
    name ∈ photoNames tree recursive extensions top source names ↔
      name ∈ tree.names (top ++ names) ∧
        isListed tree recursive (top ++ names) (pathBelow source names) name = true ∧
        Text.lowered (Path.extension name) ∈ extensions := by
  simp [photoNames, and_assoc]

theorem pairwise_photoNames (hw : tree.WellFormed) :
    (photoNames tree recursive extensions top source names).Pairwise (· < ·) :=
  (Text.pairwise_lt_sorted ((hw.nodup_names _).filter _)).filter _

/-- Only names of entries lead from a directory to those visited after it. -/
theorem exists_of_mem_directories (hn : tree.Named)
    (h : below ∈ directories tree excluded top source names) :
    ∃ rest, below = names ++ rest ∧ ∀ n ∈ rest, IsEntryName n ∧ n ∉ excluded := by
  induction names using directories.induct tree excluded top source with
  | case1 names hd ih =>
    rw [directories_eq, if_pos hd] at h
    rcases List.mem_cons.mp h with rfl | h
    · exact ⟨[], by simp⟩
    · obtain ⟨name, hb, h⟩ := List.mem_flatMap.mp h
      obtain ⟨hname, _, hx⟩ := mem_branches.mp hb
      obtain ⟨rest, rfl, hrest⟩ := ih ⟨name, hb⟩ h
      refine ⟨name :: rest, by simp, fun n hm => ?_⟩
      rcases List.mem_cons.mp hm with rfl | hm
      · exact ⟨hn.of_mem_names hname, hx⟩
      · exact hrest n hm
  | case2 names hd =>
    rw [directories_eq, if_neg hd] at h
    cases h

/-- A directory comes before all that are below it, and so do those below a branch before those below a
later one. -/
theorem pairwise_directories (hw : tree.WellFormed) (hn : tree.Named) :
    (directories tree excluded top source names).Pairwise (· < ·) := by
  induction names using directories.induct tree excluded top source with
  | case1 names hd ih =>
    rw [directories_eq, if_pos hd, List.pairwise_cons, List.pairwise_flatMap]
    refine ⟨fun below hb => ?_, fun name hb => ih ⟨name, hb⟩, ?_⟩
    · obtain ⟨name, _, hb⟩ := List.mem_flatMap.mp hb
      obtain ⟨rest, rfl, _⟩ := exists_of_mem_directories hn hb
      rw [List.append_assoc]
      exact lt_append names (by simp)
    · apply (pairwise_branches hw).imp
      intro name other hlt a ha b hb
      obtain ⟨rest, rfl, _⟩ := exists_of_mem_directories hn ha
      obtain ⟨rest', rfl, _⟩ := exists_of_mem_directories hn hb
      rw [List.append_assoc, List.append_assoc]
      exact List.append_left_lt (List.cons_lt_cons_iff.mpr (.inl hlt))
  | case2 names hd =>
    rw [directories_eq, if_neg hd]
    exact .nil

section Visited

variable (hw : tree.WellFormed) (hn : tree.Named) (hs : tree.entryAt source = .ok (top, .directory))
include hw hn hs

/-- A directory below the source is found by its path, as long as that is not too long. -/
theorem entryAt_pathBelow (hd : tree.lookup? (top ++ names) = some .directory)
    (hshort : byteCount (pathBelow source names) ≤ maxPathBytes) :
    tree.entryAt (pathBelow source names) = .ok (top ++ names, .directory) := by
  induction names using List.reverseRecOn with
  | nil => rw [List.append_nil]; exact hs
  | append_singleton names n ih =>
    have hname : IsEntryName n := hn.of_lookup? hd n (by simp)
    rw [← List.append_assoc] at hd ⊢
    rw [pathBelow_concat] at hshort ⊢
    have habove := ih (hw.lookup?_append (by simp) hd)
      (Nat.le_trans (byteCount_le_join _ hname.toIsName) hshort)
    exact FileTree.entryAt_join habove hname hd (by simp) hshort

theorem isDirectory_pathBelow (hd : tree.lookup? (top ++ names) = some .directory) :
    tree.isDirectory (pathBelow source names) = true ↔
      byteCount (pathBelow source names) ≤ maxPathBytes := by
  constructor
  · intro h
    by_contra hlong
    rw [FileTree.isDirectory] at h
    split at h
    · rename_i he
      exact FileTree.not_entryAt_of_long (Nat.lt_of_not_le hlong) _ he
    · cases h
  · intro hshort
    rw [FileTree.isDirectory, entryAt_pathBelow hw hn hs hd hshort]

/-- What a walk visits: the directories with a path that is not too long and no excluded name in it. -/
theorem mem_directories_iff (hd : tree.lookup? (top ++ names) = some .directory) :
    below ∈ directories tree excluded top source names ↔
      (∃ rest, below = names ++ rest ∧ ∀ n ∈ rest, n ∉ excluded) ∧
        tree.lookup? (top ++ below) = some .directory ∧
        byteCount (pathBelow source below) ≤ maxPathBytes := by
  constructor
  · intro h
    induction names using directories.induct tree excluded top source with
    | case1 names hvisit ih =>
      rw [directories_eq, if_pos hvisit] at h
      rcases List.mem_cons.mp h with rfl | h
      · exact ⟨⟨[], by simp⟩, hd, (isDirectory_pathBelow hw hn hs hd).mp hvisit⟩
      · obtain ⟨name, hb, h⟩ := List.mem_flatMap.mp h
        obtain ⟨_, hbranch, hx⟩ := mem_branches.mp hb
        rw [List.append_assoc] at hbranch
        obtain ⟨⟨rest, rfl, hrest⟩, hfound⟩ := ih ⟨name, hb⟩ hbranch h
        exact ⟨⟨name :: rest, by simp, by simpa [hx] using hrest⟩, hfound⟩
    | case2 names hvisit =>
      rw [directories_eq, if_neg hvisit] at h
      cases h
  · rintro ⟨⟨rest, rfl, hrest⟩, hfound, hshort⟩
    induction rest generalizing names with
    | nil =>
      rw [List.append_nil] at hshort ⊢
      rw [directories_eq, if_pos ((isDirectory_pathBelow hw hn hs hd).mpr hshort)]
      exact List.mem_cons_self
    | cons n rest ih =>
      have hnames : ∀ m ∈ n :: rest, IsName m := fun m hm =>
        (hn.of_lookup? hfound m (by simp [List.mem_cons.mp hm])).toIsName
      have hvisit := (isDirectory_pathBelow hw hn hs hd).mpr
        (Nat.le_trans (byteCount_pathBelow_le source names hnames) hshort)
      rw [List.append_cons] at hfound hshort ⊢
      have hbranch : tree.lookup? (top ++ (names ++ [n])) = some .directory := by
        by_cases hr : rest = []
        · rw [hr, List.append_nil] at hfound
          exact hfound
        · rw [← List.append_assoc] at hfound
          exact hw.lookup?_append hr hfound
      have hb : n ∈ branches tree excluded (top ++ names) := by
        rw [← List.append_assoc] at hbranch
        exact mem_branches.mpr ⟨hw.mem_names_iff.mpr ⟨_, hbranch⟩, hbranch, hrest n (by simp)⟩
      rw [directories_eq, if_pos hvisit]
      refine List.mem_cons_of_mem _ (List.mem_flatMap.mpr ⟨n, hb, ?_⟩)
      exact ih hbranch (fun m hm => hrest m (by simp [hm])) hfound hshort

end Visited

end PhotoNaming.Source
