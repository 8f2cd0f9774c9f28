import PhotoNaming.Proofs.FileTree.Below

/-! Making directories below one that is there. If all between them are there too, one entry is added
or nothing is changed. -/
namespace PhotoNaming.FileTree

open PhotoNaming.Path (IsName slashed)

variable {tree : FileTree} {directory : Text} {base place : Location} {names : List Text}

/-- A path that can lead to nothing but a directory needs none made. -/
theorem Plain.makeAbove_tree (hp : tree.Plain) {h : Text} (hl : h.getLast? ≠ some '/')
    (hd : ∀ d, tree.walk (tree.start h) (Path.parts h) = .ok d → ∃ q, d = .found q .directory) :
    (tree.makeAbove h).tree = tree := by
  rw [makeAbove]
  split
  · rfl
  · rcases hp.makeDirectory_cases h with ⟨place, _, hr, hn, _⟩ | ⟨fault, he⟩
    · rw [Path.bare_of_getLast? hl] at hr
      have hw := hr.walk
      rw [destination_of_none hn] at hw
      obtain ⟨q, hq⟩ := hd _ hw
      cases hq
    · rw [he]
      split <;> rfl

theorem makeAllAbove_tree {paths : List Text} (h : ∀ path ∈ paths, (tree.makeAbove path).tree = tree) :
    (tree.makeAllAbove paths).tree = tree := by
  induction paths with
  | nil => rfl
  | cons path paths ih =>
    have hfirst := h path (by simp)
    have hrest := ih fun other hm => h other (by simp [hm])
    rw [makeAllAbove, Change.andThen]
    split
    · exact hfirst
    · rw [hfirst]
      exact hrest

/-- The directories between a directory and the last of some names are there. -/
def Ready (tree : FileTree) (base : Location) (names : List Text) : Prop :=
  ∀ above, above ≠ [] → above <+: names → above ≠ names →
    tree.lookup? (base ++ above) = some .directory

/-- A path above one below a directory ends on the way to that directory or goes on from there by some of
the names. -/
private theorem walk_above (ho : tree.Opens directory base) (hn : ∀ n ∈ names, IsName n)
    {last : Text} (hl : IsName last) {h rest : Text}
    (hb : Path.join directory (slashed names ++ last) = h ++ '/' :: rest) (hne : h ≠ []) :
    (∃ q, tree.walk (tree.start h) (Path.parts h) = .ok (.found q .directory)) ∨
      ∃ middle, middle <+: names ++ [last] ∧ middle ≠ names ++ [last] ∧
        tree.walk (tree.start h) (Path.parts h) = tree.walk base middle := by
  obtain ⟨front, hf, hj⟩ := ho.exists_front
  have ha := Path.isAbsolute_slashed_append hn hl.isAbsolute
  have hstart : tree.start h = tree.start directory := by
    have hs := start_join tree directory ha
    rw [hb] at hs
    rw [← hs, start, start]
    cases h with
    | nil => exact absurd rfl hne
    | cons c h => rfl
  have hparts : Path.parts h ++ Path.parts rest = front ++ (names ++ [last]) := by
    rw [← Path.parts_append_slash, ← hb, hj _ ha,
      Path.parts_slashed fun n hm => (hn n hm).no_slash, Path.parts_name hl.no_slash]
  have hrest : Path.parts rest ≠ [] := List.splitOn_ne_nil '/' rest
  rw [hstart]
  rcases List.append_eq_append_iff.mp hparts with ⟨middle, hm, _⟩ | ⟨middle, hm, hm'⟩
  · rw [hm] at hf
    exact .inl (exists_walk_of_append hf (.inr ⟨base, rfl⟩))
  · refine .inr ⟨middle, ⟨_, hm'.symm⟩, ?_, by rw [hm, walk_append hf]⟩
    rw [hm']
    simpa using hrest

private theorem isName_of_prefix_concat (hn : ∀ n ∈ names, IsName n) {last : Text} (hl : IsName last)
    {middle : List Text} (hm : middle <+: names ++ [last]) : ∀ n ∈ middle, IsName n := by
  intro n hmem
  rcases List.mem_append.mp (hm.subset hmem) with hmem | hmem
  · exact hn n hmem
  · exact List.mem_singleton.mp hmem ▸ hl

theorem Ready.lookup? (hready : tree.Ready base names) (hb : tree.lookup? base = some .directory)
    {middle : List Text} (hm : middle <+: names) (hne : middle ≠ names) :
    tree.lookup? (base ++ middle) = some .directory := by
  by_cases hnil : middle = []
  · rw [hnil, List.append_nil]
    exact hb
  · exact hready middle hnil hm hne

/-- The paths above a path below a directory lead to directories or nowhere. -/
private theorem exists_directory_of_above (ho : tree.Opens directory base)
    (hn : ∀ n ∈ names, IsName n) {last : Text} (hl : IsName last)
    (hready : tree.Ready base (names ++ [last])) {h rest : Text}
    (hb : Path.join directory (slashed names ++ last) = h ++ '/' :: rest) (hne : h ≠ [])
    {d : Destination} (hd : tree.walk (tree.start h) (Path.parts h) = .ok d) :
    ∃ q, d = .found q .directory := by
  rcases walk_above ho hn hl hb hne with ⟨q, hq⟩ | ⟨middle, hm, hproper, hw⟩
  · rw [hd] at hq
    exact ⟨q, Except.ok.inj hq⟩
  · have hall := isName_of_prefix_concat hn hl hm
    rw [hw] at hd
    obtain ⟨_, he⟩ := walk_names (proceeds_of_isName hall) ho.directory hd
    rw [destination_of_lookup? (hready.lookup? ho.directory hm hproper)] at he
    exact ⟨base ++ middle, he⟩

/-- Making a directory adds it or, if there is a fault, changes nothing. -/
theorem Opens.makeDirectories_cases (ho : tree.Opens directory base) (hp : tree.Plain)
    (hn : ∀ n ∈ names, IsName n) (hne : names ≠ []) (hready : tree.Ready base names)
    (hd : tree.isDirectory (Path.join directory (slashed names)) = false) :
    (tree.lookup? (base ++ names) = none ∧
        (tree.inserted (base ++ names) .directory).Plain ∧
        (tree.inserted (base ++ names) .directory).Opens (Path.join directory (slashed names))
          (base ++ names) ∧
        tree.makeDirectories true (Path.join directory (slashed names)) =
          ⟨tree.inserted (base ++ names) .directory, none⟩) ∨
      ∃ fault, tree.makeDirectories true (Path.join directory (slashed names)) =
        ⟨tree, some fault⟩ := by
  obtain ⟨front, last, rfl⟩ : ∃ front last, names = front ++ [last] :=
    ⟨names.dropLast, names.getLast hne, (List.dropLast_append_getLast hne).symm⟩
  have hfront : ∀ n ∈ front, IsName n := fun n hm => hn n (List.mem_append_left _ hm)
  have hlast : IsName last := hn last (by simp)
  have hbare := Path.bare_join directory hfront hlast
  have hslash := Path.join_slashed_concat directory hfront hlast
  have hopens {after : FileTree} (hk : tree.Keeps after) (hw : after.WellFormed) {place : Location} :=
    ((ho.keeps hp hk).join_slashed_iff hw hn : after.Opens _ place ↔ _)
  generalize Path.join directory (slashed (front ++ [last])) = path at *
  have habove : (tree.makeAllAbove (Path.above path)).tree = tree := by
    apply makeAllAbove_tree
    intro h hm
    obtain ⟨rest, hb, hnil, hend⟩ := Path.mem_above hm
    rw [hbare] at hb
    exact hp.makeAbove_tree hend fun d hw =>
      exists_directory_of_above ho hfront hlast hready hb hnil hw
  rw [makeDirectories]
  generalize tree.makeAllAbove (Path.above path) = change at habove ⊢
  obtain ⟨made, fault⟩ := change
  obtain rfl : tree = made := habove.symm
  cases fault with
  | some fault => exact .inr ⟨fault, rfl⟩
  | none =>
    rw [Change.andThen]
    simp only [hd, Bool.false_eq_true, and_false, if_false]
    rcases hp.makeDirectory_cases path with ⟨place, hs, hr, hnone, he⟩ | ⟨fault, he⟩
    · rw [hbare] at hr
      have hw := ho.walk_join (Path.isAbsolute_slashed_append hfront hlast.isAbsolute)
      rw [Path.parts_slashed fun n hm => (hfront n hm).no_slash,
        Path.parts_name hlast.no_slash] at hw
      obtain ⟨hshort, rfl⟩ := hr.eq_of_walk ho.directory hn hw
      have hplain : (tree.inserted (base ++ (front ++ [last])) .directory).Plain :=
        hp.inserted hr hnone (by simp)
      have hi : IsPath path := ⟨by simpa [hslash] using hr.isPath.no_null, by simp [hslash], hs⟩
      have hentry : (tree.inserted (base ++ (front ++ [last])) .directory).lookup?
          (base ++ (front ++ [last])) = some .directory := by
        rw [lookup?_inserted (ne_nil_of_lookup?_none hnone) hnone, if_pos rfl]
      exact .inl ⟨hnone, hplain,
        (hopens (keeps_inserted _ _ _) hplain.toWellFormed).mpr ⟨hi, hshort, rfl, hentry⟩, he⟩
    · exact .inr ⟨fault, he⟩

/-- A path that the file system takes: neither it nor one of its names is too long. -/
structure Fits (path : Text) : Prop where
  short : byteCount path ≤ maxPathBytes
  names : ∀ n ∈ Path.components path, byteCount n ≤ maxNameBytes

instance (path : Text) : Decidable (Fits path) :=
  decidable_of_iff (byteCount path ≤ maxPathBytes ∧ ∀ n ∈ Path.components path, byteCount n ≤ maxNameBytes)
    ⟨fun h => ⟨h.1, h.2⟩, fun h => ⟨h.short, h.names⟩⟩

theorem Opens.fits {path : Text} (h : tree.Opens path place) : Fits path where
  short := h.reaches.isPath.short
  names n hn := short_of_walk h.walk_eq n (List.mem_filter.mp hn).1

/-- Below a directory the names on the way are all that counts besides the length of the path. -/
theorem Opens.fits_join_iff (ho : tree.Opens directory base) (hn : ∀ n ∈ names, IsName n) :
    Fits (Path.join directory (slashed names)) ↔
      byteCount (Path.join directory (slashed names)) ≤ maxPathBytes ∧
        ∀ n ∈ names, byteCount n ≤ maxNameBytes := by
  have hc : Path.components (Path.join directory (slashed names)) =
      Path.components directory ++ names := by
    have hs := Path.components_slashed hn []
    rw [List.append_nil, Path.components_nil, List.append_nil] at hs
    rw [Path.components_join directory (Path.isAbsolute_slashed hn), hs]
  constructor
  · exact fun h => ⟨h.short, fun n hm => h.names n (hc ▸ List.mem_append_right _ hm)⟩
  · rintro ⟨hs, hshort⟩
    refine ⟨hs, fun n hm => ?_⟩
    rw [hc, List.mem_append] at hm
    exact hm.elim (ho.fits.names n) (hshort n)

theorem makeAllAbove_of_exists? {paths : List Text} (h : ∀ path ∈ paths, tree.exists? path = true) :
    tree.makeAllAbove paths = ⟨tree, none⟩ := by
  induction paths with
  | nil => rfl
  | cons path paths ih =>
    have hfirst : tree.makeAbove path = ⟨tree, none⟩ := by rw [makeAbove, if_pos (h path (by simp))]
    rw [makeAllAbove, hfirst, Change.andThen]
    exact ih fun other hm => h other (by simp [hm])

/-- Where the directories above are there and nothing stands, just one directory is made. -/
theorem makeDirectories_of_free {reuse : Bool} {path : Text}
    (ha : ∀ above ∈ Path.above path, tree.exists? above = true) (hd : tree.isDirectory path = false)
    (hs : byteCount path ≤ maxPathBytes) (hl : tree.locate false (Path.bare path) = .ok (.free place)) :
    tree.makeDirectories reuse path = ⟨tree.inserted place .directory, none⟩ := by
  rw [makeDirectories, makeAllAbove_of_exists? ha, Change.andThen]
  simp only [hd, Bool.false_eq_true, and_false, if_false]
  rw [makeDirectory, if_neg (Nat.not_lt_of_le hs), hl]

private theorem null_notMem_join {next : Text} (hd : '\x00' ∉ directory) (hn : '\x00' ∉ next) :
    '\x00' ∉ Path.join directory next := by
  unfold Path.join
  split_ifs <;> simp [hd, hn]

private theorem null_notMem_slashed (h : ∀ n ∈ names, '\x00' ∉ n) : '\x00' ∉ slashed names := by
  induction names with
  | nil => simp
  | cons n names ih =>
    rw [Path.slashed_cons, List.mem_append, List.mem_cons, not_or, not_or]
    exact ⟨h n (by simp), by decide, ih fun m hm => h m (by simp [hm])⟩

section

variable {front : List Text} {last : Text} (ho : tree.Opens directory base) (hp : tree.Plain)
  (hn : ∀ n ∈ front, IsName n) (hl : IsName last) (hready : tree.Ready base (front ++ [last]))
include ho hn hl

private theorem isPath_join (hnull : ∀ n ∈ front ++ [last], '\x00' ∉ n)
    (hs : byteCount (Path.join directory (slashed front ++ last)) ≤ maxPathBytes) :
    IsPath (Path.join directory (slashed front ++ last)) := by
  refine ⟨null_notMem_join ho.reaches.isPath.no_null ?_, ?_, hs⟩
  · rw [List.mem_append, not_or]
    exact ⟨null_notMem_slashed fun n hm => hnull n (List.mem_append_left _ hm), hnull last (by simp)⟩
  · rw [Path.join_eq directory (Path.isAbsolute_slashed_append hn hl.isAbsolute)]
    simp [hl.ne_nil]

include hp hready

private theorem walk_middle (hs : ∀ n ∈ front ++ [last], byteCount n ≤ maxNameBytes)
    {middle : List Text} (hm : middle <+: front ++ [last]) (hne : middle ≠ front ++ [last]) :
    tree.walk base middle = .ok (.found (base ++ middle) .directory) := by
  have hd := hready.lookup? ho.directory hm hne
  have hall := isName_of_prefix_concat hn hl hm
  rw [hp.walk_names_of_lookup? (proceeds_of_isName hall) (fun n h => hs n (hm.subset h)) ho.directory hd,
    destination_of_lookup? hd]

private theorem exists?_of_above (hs : ∀ n ∈ front ++ [last], byteCount n ≤ maxNameBytes)
    (hi : IsPath (Path.join directory (slashed front ++ last))) {h : Text}
    (hm : h ∈ Path.above (Path.join directory (slashed (front ++ [last])))) : tree.exists? h = true := by
  obtain ⟨rest, hb, hnil, _⟩ := Path.mem_above hm
  rw [Path.bare_join directory hn hl] at hb
  have hpath : IsPath h := by
    have hnull := hi.no_null
    have hshort := hi.short
    rw [hb, List.mem_append, not_or] at hnull
    rw [hb, byteCount_append] at hshort
    exact ⟨hnull.1, hnil, by omega⟩
  obtain ⟨q, hq⟩ : ∃ q, tree.walk (tree.start h) (Path.parts h) = .ok (.found q .directory) := by
    rcases walk_above ho hn hl hb hnil with hq | ⟨middle, hmiddle, hproper, hw⟩
    · exact hq
    · exact ⟨_, hw.trans (walk_middle ho hp hn hl hready hs hmiddle hproper)⟩
  rw [exists?, entryAt, hp.linkFree.locate_eq hpath, hq]
  rfl

/-- The path without its last slash comes out at the place of its names. -/
private theorem walk_last (hs : ∀ n ∈ front ++ [last], byteCount n ≤ maxNameBytes) :
    tree.walk (tree.start (Path.join directory (slashed front ++ last)))
      (Path.parts (Path.join directory (slashed front ++ last))) =
        .ok (tree.destination (base ++ (front ++ [last]))) := by
  rw [ho.walk_join (Path.isAbsolute_slashed_append hn hl.isAbsolute),
    Path.parts_slashed fun n hm => (hn n hm).no_slash, Path.parts_name hl.no_slash,
    walk_append (walk_middle ho hp hn hl hready hs (List.prefix_append _ _) (by simp)),
    walk_singleton ⟨hl.ne_nil, hl.ne_dot, hl.ne_dots⟩ (hs last (by simp)), List.append_assoc]

end

/-- Where the path to a new directory leads to nothing, nothing stands. -/
theorem Opens.lookup?_eq_none (ho : tree.Opens directory base) (hp : tree.Plain)
    (hn : ∀ n ∈ names, IsName n) (hnull : ∀ n ∈ names, '\x00' ∉ n) (hne : names ≠ [])
    (hf : Fits (Path.join directory (slashed names)))
    (hfree : tree.exists? (Path.bare (Path.join directory (slashed names))) = false) :
    tree.lookup? (base ++ names) = none := by
  have hshort := ((ho.fits_join_iff hn).mp hf).2
  obtain ⟨front, last, rfl⟩ : ∃ front last, names = front ++ [last] :=
    ⟨names.dropLast, names.getLast hne, (List.dropLast_append_getLast hne).symm⟩
  have hfront : ∀ n ∈ front, IsName n := fun n hm => hn n (List.mem_append_left _ hm)
  have hlast : IsName last := hn last (by simp)
  have hcount := hf.short
  rw [Path.join_slashed_concat directory hfront hlast, byteCount_append] at hcount
  have hi := isPath_join ho hfront hlast hnull (by omega)
  cases he : tree.lookup? (base ++ (front ++ [last])) with
  | none => rfl
  | some entry =>
    have hw := ho.walk_join (Path.isAbsolute_slashed_append hfront hlast.isAbsolute)
    rw [Path.parts_slashed fun n hm => (hfront n hm).no_slash, Path.parts_name hlast.no_slash] at hw
    have hr := hp.reaches_of_lookup? hi ho.directory hn hshort hw he
    rw [Path.bare_join directory hfront hlast, hp.exists?_iff.mpr ⟨_, entry, hr, he⟩] at hfree
    cases hfree

/-- A directory can be made where those above it are there, nothing stands, and the path is one that the
file system takes. -/
theorem Opens.makeDirectories_eq (ho : tree.Opens directory base) (hp : tree.Plain)
    (hn : ∀ n ∈ names, IsName n) (hnull : ∀ n ∈ names, '\x00' ∉ n) (hne : names ≠ [])
    (hready : tree.Ready base names) (hnone : tree.lookup? (base ++ names) = none)
    (hf : Fits (Path.join directory (slashed names))) :
    tree.makeDirectories true (Path.join directory (slashed names)) =
      ⟨tree.inserted (base ++ names) .directory, none⟩ := by
  have hd : tree.isDirectory (Path.join directory (slashed names)) = false := by
    by_contra h
    obtain ⟨place, hr, hl⟩ := hp.isDirectory_iff.mp (Bool.not_eq_false _ ▸ h)
    rw [((ho.join_slashed_iff hp.toWellFormed hn).mp ⟨hr, hl⟩).2.2.2] at hnone
    cases hnone
  have hshort := ((ho.fits_join_iff hn).mp hf).2
  obtain ⟨front, last, rfl⟩ : ∃ front last, names = front ++ [last] :=
    ⟨names.dropLast, names.getLast hne, (List.dropLast_append_getLast hne).symm⟩
  have hfront : ∀ n ∈ front, IsName n := fun n hm => hn n (List.mem_append_left _ hm)
  have hlast : IsName last := hn last (by simp)
  have hcount := hf.short
  rw [Path.join_slashed_concat directory hfront hlast, byteCount_append] at hcount
  have hi := isPath_join ho hfront hlast hnull (by omega)
  have hwalk := walk_last ho hp hfront hlast hready hshort
  rw [destination_of_none hnone] at hwalk
  refine makeDirectories_of_free (fun h => exists?_of_above ho hp hfront hlast hready hshort hi) hd hf.short ?_
  rw [Path.bare_join directory hfront hlast, hp.linkFree.locate_eq hi, hwalk]

theorem Plain.isDirectory_iff_opens (hp : tree.Plain) {path : Text} :
    tree.isDirectory path = true ↔ ∃ place, tree.Opens path place := by
  rw [hp.isDirectory_iff]
  exact exists_congr fun place => ⟨fun h => ⟨h.1, h.2⟩, fun h => ⟨h.reaches, h.directory⟩⟩

/-- The tree with new directories below a place. -/
def withDirectories (tree : FileTree) (base : Location) (branches : List (List Text)) : FileTree :=
  tree.extended (branches.map fun names => (base ++ names, .directory))

theorem withDirectories_nil (tree : FileTree) (base : Location) :
    tree.withDirectories base [] = tree :=
  extended_nil tree

theorem withDirectories_inserted (tree : FileTree) (base : Location) (names : List Text)
    (branches : List (List Text)) :
    (tree.inserted (base ++ names) .directory).withDirectories base branches =
      tree.withDirectories base (names :: branches) := by
  rw [withDirectories, extended_inserted]
  rfl

theorem keeps_withDirectories (tree : FileTree) (base : Location) (branches : List (List Text)) :
    tree.Keeps (tree.withDirectories base branches) :=
  keeps_extended tree _

/-- Directories that are missing, in an order in which they can be made: each comes behind those it
stands in, unless they are there already. -/
structure Layers (tree : FileTree) (directory : Text) (branches : List (List Text)) : Prop where
  ne_nil : ∀ names ∈ branches, names ≠ []
  isName : ∀ names ∈ branches, ∀ n ∈ names, IsName n
  nodup : branches.Nodup
  missing : ∀ names ∈ branches, tree.isDirectory (Path.join directory (slashed names)) = false
  above : ∀ front names back, branches = front ++ names :: back →
    ∀ above, above ≠ [] → above <+: names → above ≠ names →
      above ∈ front ∨ tree.isDirectory (Path.join directory (slashed above)) = true

namespace Layers

variable {rest : List (List Text)}

theorem ready (h : tree.Layers directory (names :: rest)) (ho : tree.Opens directory base)
    (hp : tree.Plain) : tree.Ready base names := by
  intro above hne hbelow hproper
  rcases h.above [] names rest rfl above hne hbelow hproper with hm | hd
  · cases hm
  · obtain ⟨place, hplace⟩ := hp.isDirectory_iff_opens.mp hd
    have hn : ∀ n ∈ above, IsName n := fun n hm => h.isName names (by simp) n (hbelow.subset hm)
    exact ((ho.join_slashed_iff hp.toWellFormed hn).mp hplace).2.2.2

/-- When the first directory is made, the others can be made. -/
theorem tail (h : tree.Layers directory (names :: rest)) (ho : tree.Opens directory base)
    (hp : tree.Plain) (hnone : tree.lookup? (base ++ names) = none)
    (hplain : (tree.inserted (base ++ names) .directory).Plain)
    (hopens : (tree.inserted (base ++ names) .directory).Opens
      (Path.join directory (slashed names)) (base ++ names)) :
    (tree.inserted (base ++ names) .directory).Layers directory rest where
  ne_nil other hm := h.ne_nil other (by simp [hm])
  isName other hm := h.isName other (by simp [hm])
  nodup := (List.nodup_cons.mp h.nodup).2
  missing other hm := by
    by_contra hd
    rw [Bool.not_eq_false, hplain.isDirectory_iff_opens] at hd
    obtain ⟨place, hplace⟩ := hd
    have hn := h.isName other (by simp [hm])
    have ho' : (tree.inserted (base ++ names) .directory).Opens directory base :=
      ho.keeps hp (keeps_inserted _ _ _)
    obtain ⟨hi, hs, _, he⟩ := (ho'.join_slashed_iff hplain.toWellFormed hn).mp hplace
    have hne : base ++ other ≠ base ++ names := by
      intro heq
      rw [List.append_cancel_left heq] at hm
      exact (List.nodup_cons.mp h.nodup).1 hm
    rw [lookup?_inserted (ne_nil_of_lookup?_none hnone) hnone, if_neg hne] at he
    have hd : tree.isDirectory (Path.join directory (slashed other)) = true :=
      hp.isDirectory_iff_opens.mpr
        ⟨_, (ho.join_slashed_iff hp.toWellFormed hn).mpr ⟨hi, hs, rfl, he⟩⟩
    rw [h.missing other (by simp [hm])] at hd
    cases hd
  above front other back he above hne hbelow hproper := by
    rcases h.above (names :: front) other back (by rw [he]; rfl) above hne hbelow hproper with
      hm | hd
    · rcases List.mem_cons.mp hm with rfl | hm
      · exact .inr (hplain.isDirectory_iff_opens.mpr ⟨_, hopens⟩)
      · exact .inl hm
    · obtain ⟨place, hplace⟩ := hp.isDirectory_iff_opens.mp hd
      exact .inr (hplain.isDirectory_iff_opens.mpr ⟨place, hplace.keeps hp (keeps_inserted _ _ _)⟩)

end Layers

end PhotoNaming.FileTree
