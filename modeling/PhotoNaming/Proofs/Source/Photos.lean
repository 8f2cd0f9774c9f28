import PhotoNaming.Proofs.Source.Walking

/-! The photos below a directory. A walk through a tree without links finds each of them once, those of one
directory before those of the directories in it. -/
namespace PhotoNaming.Source

open PhotoNaming.FileTree (IsEntryName maxPathBytes)

/-- A file below a directory is a photo of it by its extension, unless an excluded directory lies between. -/
structure IsPhoto (tree : FileTree) (extensions excluded : List Text) (top : Location)
    (names : List Text) (name : Text) : Prop where
  file : ∃ data, tree.lookup? (top ++ names ++ [name]) = some (.file data)
  extension : Text.lowered (Path.extension name) ∈ extensions
  included : ∀ n ∈ names, n ∉ excluded

/-- A photo by the names of the directories that lead to it and its own. -/
abbrev Finding := List Text × Text

namespace Finding

/-- The path of a photo below a source. -/
def path (source : Text) (found : Finding) : Text := Path.join (pathBelow source found.1) found.2

/-- The order of a walk. What is found in a directory comes before what is found below it, and what is
found below a directory before what is found below a later one. -/
def Precedes (a b : Finding) : Prop := a.1 < b.1 ∨ a.1 = b.1 ∧ a.2 < b.2

theorem Precedes.ne {a b : Finding} (h : a.Precedes b) : a ≠ b := by
  rintro rfl
  rcases h with h | ⟨_, h⟩
  · exact List.lt_irrefl _ h
  · exact List.lt_irrefl _ h

end Finding

/-- All that a walk finds. -/
def findings (tree : FileTree) (extensions excluded : List Text) (top : Location) (source : Text) :
    List Finding :=
  (directories tree excluded top source []).flatMap fun names =>
    (photoNames tree true extensions top source names).map fun name => (names, name)

variable {tree : FileTree} {extensions excluded : List Text} {top place : Location}
  {source path name : Text} {names : List Text}

theorem mem_findings :
    (names, name) ∈ findings tree extensions excluded top source ↔
      names ∈ directories tree excluded top source [] ∧
        name ∈ photoNames tree true extensions top source names := by
  simp only [findings, List.mem_flatMap, List.mem_map, Prod.mk.injEq]
  constructor
  · rintro ⟨_, hd, _, hp, rfl, rfl⟩
    exact ⟨hd, hp⟩
  · rintro ⟨hd, hp⟩
    exact ⟨names, hd, name, hp, rfl, rfl⟩

theorem pairwise_findings (hw : tree.WellFormed) (hn : tree.Named) :
    (findings tree extensions excluded top source).Pairwise Finding.Precedes := by
  rw [findings, List.pairwise_flatMap]
  constructor
  · intro names _
    rw [List.pairwise_map]
    exact (pairwise_photoNames hw).imp fun hlt => .inr ⟨rfl, hlt⟩
  · apply (pairwise_directories hw hn).imp
    intro names others hlt a ha b hb
    obtain ⟨_, _, rfl⟩ := List.mem_map.mp ha
    obtain ⟨_, _, rfl⟩ := List.mem_map.mp hb
    exact .inl hlt

theorem isEntryName_of_mem_findings (hn : tree.Named)
    (h : (names, name) ∈ findings tree extensions excluded top source) :
    (∀ n ∈ names, IsEntryName n) ∧ IsEntryName name := by
  obtain ⟨hd, hp⟩ := mem_findings.mp h
  obtain ⟨rest, rfl, hrest⟩ := exists_of_mem_directories hn hd
  exact ⟨fun n hm => (hrest n hm).1, hn.of_mem_names (mem_photoNames.mp hp).1⟩

theorem nodup_paths (hw : tree.WellFormed) (hn : tree.Named) :
    ((findings tree extensions excluded top source).map (Finding.path source)).Nodup := by
  refine List.Nodup.map_on ?_ ((pairwise_findings hw hn).imp Finding.Precedes.ne)
  intro a ha b hb hpath
  obtain ⟨han, hal⟩ := isEntryName_of_mem_findings hn ha
  obtain ⟨hbn, hbl⟩ := isEntryName_of_mem_findings hn hb
  obtain ⟨hnames, hname⟩ := join_pathBelow_inj (fun n hm => (han n hm).toIsName) hal.toIsName
    (fun n hm => (hbn n hm).toIsName) hbl.toIsName hpath
  exact Prod.ext hnames hname

theorem result_collect_eq (hs : tree.entryAt source = .ok (top, .directory)) :
    (collect tree source extensions true excluded).result =
      .ok ((findings tree extensions excluded top source).map (Finding.path source)) := by
  rw [collect, hs]
  have hphotos : photosOf tree true extensions top source = fun names =>
      ((photoNames tree true extensions top source names).map fun name => (names, name)).map
        (Finding.path source) := by
    funext names
    rw [List.map_map]
    rfl
  rw [findings, List.map_flatMap, List.flatMap, ← hphotos]
  rfl

/-- A walk takes only directories for directories, where there are no links. -/
theorem isTakenForDirectory_of_lookup? {entry : Entry}
    (hs : tree.entryAt path = .ok (place, .directory)) (hn : IsEntryName name)
    (he : tree.lookup? (place ++ [name]) = some entry) (hd : entry ≠ .directory)
    (hl : ∀ target, entry ≠ .link target) : isTakenForDirectory tree place path name = false := by
  have hno : tree.holdsDirectory (place ++ [name]) = false := by
    rw [Bool.eq_false_iff, Ne, FileTree.holdsDirectory_iff, he]
    simpa using hd
  rw [isTakenForDirectory, hno, Bool.false_or, FileTree.isDirectory]
  split
  · rename_i hat
    by_cases hshort : byteCount (Path.join path name) ≤ maxPathBytes
    · rw [FileTree.entryAt_join hs hn he hl hshort] at hat
      exact absurd (Prod.mk.inj (Except.ok.inj hat)).2 hd
    · exact absurd hat (FileTree.not_entryAt_of_long (Nat.lt_of_not_le hshort) _)
  · rfl

/-- What a walk finds: all entries but directories. -/
theorem mem_findings_iff (hp : tree.Plain) (hn : tree.Named)
    (hs : tree.entryAt source = .ok (top, .directory)) :
    (names, name) ∈ findings tree extensions excluded top source ↔
      (∃ entry, tree.lookup? (top ++ names ++ [name]) = some entry ∧ entry ≠ .directory) ∧
        Text.lowered (Path.extension name) ∈ extensions ∧ (∀ n ∈ names, n ∉ excluded) ∧
          byteCount (pathBelow source names) ≤ maxPathBytes := by
  have hw := hp.toWellFormed
  have hd : tree.lookup? (top ++ []) = some .directory := by
    rw [List.append_nil]
    exact (hp.entryAt_eq_ok_iff.mp hs).2
  rw [mem_findings, mem_directories_iff hw hn hs hd, mem_photoNames, hw.mem_names_iff, isListed,
    if_pos rfl]
  constructor
  · rintro ⟨⟨⟨rest, rfl, hx⟩, _, hshort⟩, ⟨entry, he⟩, hlisted, hext⟩
    refine ⟨⟨entry, he, ?_⟩, hext, hx, hshort⟩
    rintro rfl
    rw [isTakenForDirectory, FileTree.holdsDirectory_iff.mpr he] at hlisted
    cases hlisted
  · rintro ⟨⟨entry, he, hentry⟩, hext, hx, hshort⟩
    have hfound := hw.lookup?_append (by simp) he
    have hname : IsEntryName name := hn.of_lookup? he name (by simp)
    refine ⟨⟨⟨names, rfl, hx⟩, hfound, hshort⟩, ⟨entry, he⟩, ?_, hext⟩
    have hat := entryAt_pathBelow hw hn hs hfound hshort
    have hlink (target : Text) : entry ≠ .link target := by
      rintro rfl
      exact hp.linkFree.lookup?_ne_link _ target he
    simp [isTakenForDirectory_of_lookup? hat hname he hentry hlink]

theorem mem_findings_iff_isPhoto (hp : tree.Plain) (hn : tree.Named)
    (hs : tree.entryAt source = .ok (top, .directory))
    (hspecial : ∀ accessed, tree.lookup? (top ++ names ++ [name]) ≠ some (.special accessed)) :
    (names, name) ∈ findings tree extensions excluded top source ↔
      IsPhoto tree extensions excluded top names name ∧
        byteCount (pathBelow source names) ≤ maxPathBytes := by
  rw [mem_findings_iff hp hn hs]
  constructor
  · rintro ⟨⟨entry, he, hd⟩, hext, hx, hshort⟩
    cases entry with
    | directory => exact absurd rfl hd
    | file data => exact ⟨⟨⟨data, he⟩, hext, hx⟩, hshort⟩
    | special accessed => exact absurd he (hspecial accessed)
    | link target => exact absurd he (hp.linkFree.lookup?_ne_link _ target)
  · rintro ⟨⟨⟨data, he⟩, hext, hx⟩, hshort⟩
    exact ⟨⟨_, he, nofun⟩, hext, hx, hshort⟩

/-- A walk finds the photos of a directory whose directories have no path that is too long, each of them
once and in order. Of what is special it may list some, too, in its place. -/
theorem walk_finds_photos (hp : tree.Plain) (hn : tree.Named)
    (hs : tree.entryAt source = .ok (top, .directory)) (extensions excluded : List Text) :
    ∃ photos : List Finding,
      (collect tree source extensions true excluded).result =
          .ok (photos.map (Finding.path source)) ∧
        (∀ names name,
          (∀ accessed, tree.lookup? (top ++ names ++ [name]) ≠ some (.special accessed)) →
            ((names, name) ∈ photos ↔
              IsPhoto tree extensions excluded top names name ∧
                byteCount (pathBelow source names) ≤ maxPathBytes)) ∧
        photos.Pairwise Finding.Precedes ∧ (photos.map (Finding.path source)).Nodup :=
  ⟨findings tree extensions excluded top source, result_collect_eq hs,
    fun _ _ => mem_findings_iff_isPhoto hp hn hs, pairwise_findings hp.toWellFormed hn,
    nodup_paths hp.toWellFormed hn⟩

/-- A directory of one photo and of a socket, with a directory that is named like a photo and one that is
left out. -/
private def album : FileTree where
  entries := [(["d".toList], .directory), (["d".toList, "b.JPG".toList], .file (.ofText ['b'] 0)),
    (["d".toList, "c.jpg".toList], .special 0),
    (["d".toList, "a.jpg".toList], .directory),
    (["d".toList, "a.jpg".toList, "x.jpg".toList], .file (.ofText ['x'] 0)),
    (["d".toList, ".git".toList], .directory),
    (["d".toList, ".git".toList, "y.jpg".toList], .file (.ofText ['y'] 0))]
  working := []

private theorem plain_album : album.Plain := by decide

private theorem named_album : album.Named := by decide

private theorem entryAt_album : album.entryAt ['d'] = .ok (["d".toList], .directory) :=
  plain_album.entryAt_eq_ok_iff.mpr ⟨⟨⟨by decide, by decide, by decide⟩, rfl⟩, rfl⟩

theorem walk_finds_photos_of_album :
    album.Plain ∧ album.Named ∧ ∃ photos : List Finding,
      (collect album ['d'] [".jpg".toList] true [".git".toList]).result =
          .ok (photos.map (Finding.path ['d'])) ∧
        ([], "b.JPG".toList) ∈ photos ∧ (["a.jpg".toList], "x.jpg".toList) ∈ photos ∧
        ([".git".toList], "y.jpg".toList) ∉ photos := by
  obtain ⟨photos, hr, hm, _⟩ := walk_finds_photos plain_album named_album entryAt_album
    [".jpg".toList] [".git".toList]
  have ordinary {place : Location} {data : FileData} (h : album.lookup? place = some (.file data))
      (accessed : Int) : album.lookup? place ≠ some (.special accessed) := by simp [h]
  refine ⟨plain_album, named_album, photos, hr, ?_, ?_, ?_⟩
  · exact (hm _ _ (ordinary rfl)).mpr ⟨⟨⟨_, rfl⟩, by decide, by decide⟩, by decide⟩
  · exact (hm _ _ (ordinary rfl)).mpr ⟨⟨⟨_, rfl⟩, by decide, by decide⟩, by decide⟩
  · exact fun h => ((hm _ _ (ordinary rfl)).mp h).1.included ".git".toList (by decide) (by decide)

/-- A photo in a directory of a directory. -/
private def nested : FileTree where
  entries := [(["d".toList], .directory), (["d".toList, "s".toList], .directory),
    (["d".toList, "s".toList, "a.jpg".toList], .file (.ofText ['a'] 0))]
  working := []

private theorem plain_nested : nested.Plain := by decide

private theorem named_nested : nested.Named := by decide

/-- The path of a directory with slashes behind it, which lead nowhere else. -/
private def slashedPath (n : Nat) : Text := 'd' :: List.replicate n '/'

private theorem byteCount_slashedPath (n : Nat) : byteCount (slashedPath n) = n + 1 := by
  have slashes : byteCount (List.replicate n '/') = n := by
    induction n with
    | zero => rfl
    | succ n ih =>
      rw [List.replicate_succ, byteCount, ih, Nat.add_comm]
      rfl
  rw [slashedPath, byteCount, slashes, Nat.add_comm]
  rfl

private theorem walk_slashedPath (n : Nat) :
    nested.walk (nested.start (slashedPath n)) (Path.parts (slashedPath n)) =
      .ok (.found ["d".toList] .directory) := by
  have slashes (place : Location) (n : Nat) :
      nested.walk place (Path.parts (List.replicate n '/')) = .ok (.found place .directory) := by
    induction n with
    | zero => rfl
    | succ n ih =>
      have hparts := Path.parts_append_slash [] (List.replicate n '/')
      rw [List.nil_append] at hparts
      rw [List.replicate_succ, hparts]
      exact ih
  cases n with
  | zero => rfl
  | succ n =>
    rw [slashedPath, List.replicate_succ, ← List.singleton_append, Path.parts_append_slash]
    exact slashes ["d".toList] n

private theorem entryAt_slashedPath {n : Nat} (h : n < 4095) :
    nested.entryAt (slashedPath n) = .ok (["d".toList], .directory) := by
  have hpath : FileTree.IsPath (slashedPath n) := by
    refine ⟨by simp [slashedPath], by simp [slashedPath], ?_⟩
    rw [byteCount_slashedPath]
    exact h
  exact plain_nested.entryAt_eq_ok_iff.mpr ⟨⟨hpath, walk_slashedPath n⟩, rfl⟩

/-- A photo is not found where the path of its directory is too long. -/
theorem walk_misses_photo :
    nested.Plain ∧ nested.Named ∧
      nested.entryAt (slashedPath 4094) = .ok (["d".toList], .directory) ∧
      IsPhoto nested [".jpg".toList] [] ["d".toList] ["s".toList] "a.jpg".toList ∧
      (collect nested (slashedPath 4094) [".jpg".toList] true []).result = .ok [] := by
  have hs : nested.entryAt (slashedPath 4094) = .ok (["d".toList], .directory) :=
    entryAt_slashedPath (by decide)
  refine ⟨plain_nested, named_nested, hs, ⟨⟨_, rfl⟩, by decide, by decide⟩, ?_⟩
  have hnone : findings nested [".jpg".toList] [] ["d".toList] (slashedPath 4094) = [] := by
    rw [List.eq_nil_iff_forall_not_mem]
    rintro ⟨names, name⟩ h
    obtain ⟨⟨entry, he, hd⟩, _, _, hshort⟩ := (mem_findings_iff plain_nested named_nested hs).mp h
    have hplace : names ++ [name] = ["s".toList] ++ ["a.jpg".toList] := by
      have hm := FileTree.mem_entries_of_lookup? (by simp) he
      simp only [nested, List.mem_cons, List.not_mem_nil, or_false, Prod.mk.injEq, hd, and_false,
        false_or] at hm
      simpa using hm.1
    rw [(List.append_inj' hplace rfl).1, ← List.nil_append ["s".toList], pathBelow_concat] at hshort
    have hle := byteCount_add_le_join (slashedPath 4094) (show Path.IsName "s".toList by decide)
    have hone : byteCount "s".toList = 1 := rfl
    have hmax : maxPathBytes = 4095 := rfl
    rw [byteCount_slashedPath, hone] at hle
    rw [hmax] at hshort
    exact absurd (Nat.le_trans hle hshort) (by omega)
  rw [result_collect_eq hs, hnone]
  rfl

end PhotoNaming.Source
