import PhotoNaming.Proofs.Source.Photos
import PhotoNaming.Proofs.Path.Extension

/-! The top level of a source. What lies in the source itself is listed in two ways, which agree on all files:
only a walk also lists names that lead nowhere or to a special entry. -/
namespace PhotoNaming.Source

open PhotoNaming.Path (IsName)
open PhotoNaming.FileTree (IsEntryName maxPathBytes)

/-- A path leads to an entry of the source itself. -/
def LiesIn (source path : Text) : Prop := path = Path.join source (Path.fileName path)

instance (source path : Text) : Decidable (LiesIn source path) :=
  inferInstanceAs (Decidable (path = Path.join source (Path.fileName path)))

variable {tree : FileTree} {extensions excluded : List Text} {top place : Location}
  {source path name : Text} {names : List Text} {recursive : Bool}

theorem fileName_join (path : Text) (hn : IsName name) : Path.fileName (Path.join path name) = name := by
  rw [Path.join_eq path hn.isAbsolute]
  refine (Path.fileName_append ?_ hn.no_slash).1
  rcases Path.join_nil_cases path with ⟨hj, _⟩ | ⟨_, _, hj⟩ | ⟨_, _, _, _, hj⟩
  · exact .inl hj
  · exact .inr (by simp [hj])
  · exact .inr (by simp [hj])

theorem liesIn_path_iff (hn : ∀ n ∈ names, IsName n) (hname : IsName name) :
    LiesIn source (Finding.path source (names, name)) ↔ names = [] := by
  rw [LiesIn, Finding.path, fileName_join _ hname]
  constructor
  · exact fun h => (join_pathBelow_inj hn hname (by simp) hname (show _ = Path.join (pathBelow source []) _
      from h)).1
  · rintro rfl
    rfl

theorem result_collect_top (hs : tree.entryAt source = .ok (top, .directory)) :
    (collect tree source extensions false excluded).result =
      .ok ((photoNames tree false extensions top source []).map (Path.join source)) := by
  rw [collect, hs]
  simp [photosOf]

/-- What a walk finds in the source itself. -/
theorem filter_liesIn_findings (hn : tree.Named) (hs : tree.entryAt source = .ok (top, .directory)) :
    ((findings tree extensions excluded top source).map (Finding.path source)).filter
        (fun path => LiesIn source path) =
      (photoNames tree true extensions top source []).map (Path.join source) := by
  have hvisit : tree.isDirectory (pathBelow source []) = true := by
    rw [FileTree.isDirectory, pathBelow_nil, hs]
  have hlies {names : List Text} {name : Text}
      (h : (names, name) ∈ findings tree extensions excluded top source) :
      LiesIn source (Finding.path source (names, name)) ↔ names = [] := by
    obtain ⟨hnames, hname⟩ := isEntryName_of_mem_findings hn h
    exact liesIn_path_iff (fun n hm => (hnames n hm).toIsName) hname.toIsName
  rw [findings, directories_eq, if_pos hvisit, List.flatMap_cons] at hlies ⊢
  rw [List.map_append, List.filter_append, List.filter_eq_self.mpr, List.filter_eq_nil_iff.mpr,
    List.append_nil, List.map_map]
  · rfl
  · intro path hm
    obtain ⟨⟨names, name⟩, hfound, rfl⟩ := List.mem_map.mp hm
    rw [decide_eq_true_eq, hlies (List.mem_append_right _ hfound)]
    obtain ⟨_, hd, hp⟩ := List.mem_flatMap.mp hfound
    obtain ⟨_, _, he⟩ := List.mem_map.mp hp
    obtain ⟨branch, _, hd⟩ := List.mem_flatMap.mp hd
    obtain ⟨rest, rfl, _⟩ := exists_of_mem_directories hn hd
    rw [← (Prod.mk.inj he).1]
    simp
  · intro path hm
    obtain ⟨⟨names, name⟩, hfound, rfl⟩ := List.mem_map.mp hm
    rw [decide_eq_true_eq, hlies (List.mem_append_left _ hfound)]
    obtain ⟨_, _, he⟩ := List.mem_map.mp hfound
    exact (Prod.mk.inj he).1.symm

/-- A walk lists all names that lead to files. -/
theorem isTakenForDirectory_of_isFile (hn : IsEntryName name)
    (hs : tree.entryAt path = .ok (place, .directory))
    (hf : tree.isFile (Path.join path name) = true) :
    isTakenForDirectory tree place path name = false := by
  rw [isTakenForDirectory, FileTree.isDirectory_of_isFile hf, Bool.or_false, Bool.eq_false_iff, Ne,
    FileTree.holdsDirectory_iff]
  intro hd
  rw [FileTree.isFile] at hf
  split at hf
  · rename_i he
    have hshort := (FileTree.isPath_of_entryAt he).short
    rw [FileTree.entryAt_join hs hn hd (by simp) hshort] at he
    cases he
  · cases hf

theorem filter_isFile_photoNames (hn : tree.Named) (hs : tree.entryAt source = .ok (top, .directory)) :
    (photoNames tree true extensions top source []).filter (fun name => tree.isFile (Path.join source name)) =
      photoNames tree false extensions top source [] := by
  rw [photoNames, photoNames, List.append_nil, List.filter_comm, Text.filter_sorted]
  congr 2
  rw [List.filter_filter]
  apply List.filter_congr
  intro name hm
  cases hf : tree.isFile (Path.join source name) with
  | false => simp [isListed, hf]
  | true =>
    simp [isListed, hf, isTakenForDirectory_of_isFile (hn.of_mem_names hm) hs hf]

/-- What a walk lists but is no file is special, or it is not there: it is a link that leads nowhere, or its
path is too long. -/
theorem special_or_lost (hw : tree.WellFormed) (hn : tree.Named)
    (hs : tree.entryAt source = .ok (top, .directory))
    (hm : name ∈ photoNames tree true extensions top source [])
    (hf : tree.isFile (Path.join source name) = false) :
    tree.isSpecial (Path.join source name) = true ∨
      tree.exists? (Path.join source name) = false ∧
        (maxPathBytes < byteCount (Path.join source name) ∨
          ∃ target, tree.lookup? (top ++ [name]) = some (.link target)) := by
  obtain ⟨hname, hlisted, _⟩ := mem_photoNames.mp hm
  have hentry := hn.of_mem_names hname
  rw [List.append_nil] at hname hlisted
  have htaken : isTakenForDirectory tree top source name = false := by
    simpa [isListed] using hlisted
  rw [isTakenForDirectory, Bool.or_eq_false_iff] at htaken
  refine (Bool.eq_false_or_eq_true (tree.isSpecial (Path.join source name))).imp_right fun hspecial => ?_
  refine ⟨by rw [FileTree.exists?_eq, hf, htaken.2, hspecial]; rfl, ?_⟩
  obtain ⟨entry, he⟩ := hw.mem_names_iff.mp hname
  cases entry with
  | link target => exact .inr ⟨target, he⟩
  | directory =>
    rw [FileTree.holdsDirectory_iff.mpr he] at htaken
    cases htaken.1
  | file data =>
    by_cases hshort : byteCount (Path.join source name) ≤ maxPathBytes
    · rw [FileTree.isFile, FileTree.entryAt_join hs hentry he (by simp) hshort] at hf
      cases hf
    · exact .inl (Nat.lt_of_not_le hshort)
  | special accessed =>
    by_cases hshort : byteCount (Path.join source name) ≤ maxPathBytes
    · rw [FileTree.isSpecial, FileTree.entryAt_join hs hentry he (by simp) hshort] at hspecial
      cases hspecial
    · exact .inl (Nat.lt_of_not_le hshort)

/-- The two listings agree on the files of the source itself. What only the walk lists of the source leads
to a special entry or nowhere. -/
theorem top_levels_agree (hw : tree.WellFormed) (hn : tree.Named)
    (hs : tree.entryAt source = .ok (top, .directory)) (extensions excluded : List Text) :
    ∃ flat deep, (collect tree source extensions false excluded).result = .ok flat ∧
      (collect tree source extensions true excluded).result = .ok deep ∧
      let level := deep.filter fun path => LiesIn source path
      flat = level.filter tree.isFile ∧
        (∀ path ∈ level, tree.isFile path = false →
          tree.isSpecial path = true ∨
            tree.exists? path = false ∧
              (maxPathBytes < byteCount path ∨
                ∃ target, tree.lookup? (top ++ [Path.fileName path]) = some (.link target))) ∧
        (flat = level ↔ ∀ path ∈ level, tree.exists? path = true ∧ tree.isSpecial path = false) := by
  refine ⟨_, _, result_collect_top hs, result_collect_eq hs, ?_⟩
  intro level
  have hlevel : level = (photoNames tree true extensions top source []).map (Path.join source) :=
    filter_liesIn_findings hn hs
  have hflat : (photoNames tree false extensions top source []).map (Path.join source) =
      level.filter tree.isFile := by
    rw [hlevel, List.filter_map, ← filter_isFile_photoNames hn hs]
    rfl
  have hlost : ∀ path ∈ level, tree.isFile path = false →
      tree.isSpecial path = true ∨ tree.exists? path = false ∧ (maxPathBytes < byteCount path ∨
        ∃ target, tree.lookup? (top ++ [Path.fileName path]) = some (.link target)) := by
    intro path hm hf
    rw [hlevel] at hm
    obtain ⟨name, hphoto, rfl⟩ := List.mem_map.mp hm
    rw [fileName_join source (hn.of_mem_names (mem_photoNames.mp hphoto).1).toIsName]
    exact special_or_lost hw hn hs hphoto hf
  refine ⟨hflat, hlost, ?_⟩
  rw [hflat, List.filter_eq_self]
  constructor
  · intro h path hm
    exact ⟨by rw [FileTree.exists?_eq, h path hm]; rfl, FileTree.isSpecial_of_isFile (h path hm)⟩
  · intro h path hm
    obtain ⟨hex, hspecial⟩ := h path hm
    by_contra hf
    rcases hlost path hm (Bool.eq_false_iff.mpr hf) with hno | ⟨hno, _⟩
    · rw [hspecial] at hno
      cases hno
    · rw [hex] at hno
      cases hno

/-- A directory of a photo and of a link with a photo's name that leads nowhere. -/
private def lost : FileTree where
  entries := [(["d".toList], .directory), (["d".toList, "z.jpg".toList], .file (.ofText ['z'] 0)),
    (["d".toList, "gone.jpg".toList], .link "none".toList)]
  working := []

private theorem wellFormed_lost : lost.WellFormed := by decide

private theorem named_lost : lost.Named := by decide

private theorem entryAt_lost : lost.entryAt ['d'] = .ok (["d".toList], .directory) := by
  have hd : lost.lookup? ([] ++ ["d".toList]) = some .directory := rfl
  have hparts : Path.parts ['d'] = ["d".toList] := by decide
  rw [FileTree.entryAt, FileTree.IsPath.locate_eq ⟨by decide, by decide, by decide⟩, hparts,
    FileTree.lead_cons (by decide), show lost.start ['d'] = [] from rfl, hd]
  simp [FileTree.lead]

private theorem isFile_photo : lost.isFile "d/z.jpg".toList = true := by
  have hz : lost.lookup? (["d".toList] ++ ["z.jpg".toList]) = some (.file (.ofText ['z'] 0)) := rfl
  have hj := FileTree.entryAt_join entryAt_lost (by decide) hz (by simp) (by decide)
  rw [show "d/z.jpg".toList = Path.join ['d'] "z.jpg".toList from rfl, FileTree.isFile, hj]

private theorem lead_lost (links : Nat) :
    lost.lead true (links + 1) ["d".toList] ["gone.jpg".toList] =
      .ok (.free ["d".toList, "none".toList]) := by
  have hlink : lost.lookup? (["d".toList] ++ ["gone.jpg".toList]) = some (.link "none".toList) := rfl
  have hparts : Path.parts "none".toList ++ [] = ["none".toList] := by decide
  rw [FileTree.lead_cons (by decide), hlink]
  simp only [Bool.not_true, Bool.false_eq_true, and_false, if_false]
  rw [hparts, FileTree.lead_cons (by decide)]
  rfl

private theorem entryAt_link : lost.entryAt "d/gone.jpg".toList = .error .notFound := by
  have hd : lost.lookup? ([] ++ ["d".toList]) = some .directory := rfl
  have hparts : Path.parts "d/gone.jpg".toList = ["d".toList, "gone.jpg".toList] := by decide
  rw [FileTree.entryAt, FileTree.IsPath.locate_eq ⟨by decide, by decide, by decide⟩, hparts,
    FileTree.lead_cons (by decide), show lost.start "d/gone.jpg".toList = [] from rfl, hd]
  simp only [FileTree.maxLinks]
  rw [List.nil_append, lead_lost]

private theorem mem_findings_lost {name : Text} (hname : name ∈ lost.names ["d".toList])
    (hx : Text.lowered (Path.extension name) ∈ [".jpg".toList])
    (ht : isTakenForDirectory lost ["d".toList] ['d'] name = false) :
    ([], name) ∈ findings lost [".jpg".toList] [] ["d".toList] ['d'] := by
  have hd : lost.isDirectory (pathBelow ['d'] []) = true := by
    rw [FileTree.isDirectory, pathBelow_nil, entryAt_lost]
  rw [mem_findings, mem_photoNames, directories_eq, if_pos hd]
  refine ⟨List.mem_cons_self, hname, ?_, hx⟩
  rw [isListed, if_pos rfl, List.append_nil, pathBelow_nil, ht]
  rfl

theorem top_levels_agree_but_for_link :
    lost.WellFormed ∧ lost.Named ∧ ∃ flat deep,
      (collect lost ['d'] [".jpg".toList] false []).result = .ok flat ∧
        (collect lost ['d'] [".jpg".toList] true []).result = .ok deep ∧
        flat = (deep.filter fun path => LiesIn ['d'] path).filter lost.isFile ∧
        "d/z.jpg".toList ∈ flat := by
  obtain ⟨flat, deep, hf, hd, he, _⟩ :=
    top_levels_agree wellFormed_lost named_lost entryAt_lost [".jpg".toList] []
  refine ⟨wellFormed_lost, named_lost, flat, deep, hf, hd, he, ?_⟩
  have htaken : isTakenForDirectory lost ["d".toList] ['d'] "z.jpg".toList = false :=
    isTakenForDirectory_of_isFile (by decide) entryAt_lost isFile_photo
  have hm := List.mem_map_of_mem (f := Finding.path ['d'])
    (mem_findings_lost (by decide) (by decide) htaken)
  rw [result_collect_eq entryAt_lost, Except.ok.injEq] at hd
  rw [he, ← hd, List.mem_filter, List.mem_filter]
  exact ⟨⟨hm, rfl⟩, isFile_photo⟩

/-- A walk lists a link that leads nowhere, and a listing of the source alone does not. -/
theorem walk_lists_lost_link :
    lost.WellFormed ∧ lost.Named ∧ lost.entryAt ['d'] = .ok (["d".toList], .directory) ∧
      ∃ flat deep, (collect lost ['d'] [".jpg".toList] false []).result = .ok flat ∧
        (collect lost ['d'] [".jpg".toList] true []).result = .ok deep ∧
        LiesIn ['d'] "d/gone.jpg".toList ∧ "d/gone.jpg".toList ∈ deep ∧
        "d/gone.jpg".toList ∉ flat := by
  refine ⟨wellFormed_lost, named_lost, entryAt_lost, _, _, result_collect_top entryAt_lost,
    result_collect_eq entryAt_lost, by decide, ?_, ?_⟩
  · have htaken : isTakenForDirectory lost ["d".toList] ['d'] "gone.jpg".toList = false := by
      rw [isTakenForDirectory, FileTree.isDirectory,
        show Path.join ['d'] "gone.jpg".toList = "d/gone.jpg".toList from rfl, entryAt_link]
      rfl
    exact List.mem_map_of_mem (mem_findings_lost (by decide) (by decide) htaken)
  · rw [← filter_isFile_photoNames named_lost entryAt_lost, List.mem_map]
    rintro ⟨name, hm, hpath⟩
    have hf := (List.mem_filter.mp hm).2
    rw [hpath, FileTree.isFile, entryAt_link] at hf
    cases hf

end PhotoNaming.Source
