import PhotoNaming.Proofs.Plan.Listing
import PhotoNaming.Proofs.Transfer.Steps

/-! The first part of a run. It comes through exactly if the file system takes the paths of the missing
directories, and then these have been added, so every planned file has a directory to go to. -/
namespace PhotoNaming

open PhotoNaming.Path (IsName slashed)
open PhotoNaming.FileTree (Fits)

theorem FileName.null_notMem_level (t : Text) : '\x00' ∉ FileName.level t := by
  unfold FileName.level
  split
  · decide
  · intro h
    have hf := FileName.not_isForbidden_of_mem_sanitized h
    exact absurd hf (by decide)

theorem Plan.IsBranch.null_notMem {records : List Record} {levels : List Pattern} {names : List Text}
    (h : Plan.IsBranch records levels names) : ∀ n ∈ names, '\x00' ∉ n := by
  obtain ⟨_, r, _, hp⟩ := h
  intro n hn
  obtain ⟨p, _, rfl⟩ := List.mem_map.mp (hp.subset hn)
  exact FileName.null_notMem_level _

namespace Transfer

variable {tree : FileTree} {directory : Text} {base : Location} {branches : List (List Text)}

/-- Making directories in an order in which they can be made adds the first of them, and all of them
unless there is a fault. -/
theorem directories_layers (ho : tree.Opens directory base) (hp : tree.Plain)
    (h : tree.Layers directory branches) :
    let first := directories tree (fun after => ⟨after, [], [], none⟩)
      (branches.map fun names => Path.join directory (slashed names))
    ∃ made, made <+: branches ∧ first.tree = tree.withDirectories base made ∧ first.tree.Plain ∧
      (∀ names ∈ made, first.tree.Opens (Path.join directory (slashed names)) (base ++ names)) ∧
      (first.fault = none ↔ made = branches) := by
  induction branches generalizing tree with
  | nil =>
    exact ⟨[], List.nil_prefix, (tree.withDirectories_nil base).symm, hp, by simp, by simp [directories]⟩
  | cons names branches ih =>
    intro first
    have hd := h.missing names (by simp)
    rcases ho.makeDirectories_cases hp (h.isName names (by simp)) (h.ne_nil names (by simp))
      (h.ready ho hp) hd with ⟨hnone, hplain, hopens, hm⟩ | ⟨fault, hm⟩
    · have hk := FileTree.keeps_inserted tree (base ++ names) .directory
      obtain ⟨made, hbelow, htree, hp', ho', hfault⟩ :=
        ih (ho.keeps hp hk) hplain (h.tail ho hp hnone hplain hopens)
      obtain ⟨entries, he⟩ := directories_cons_of_done (fun after => ⟨after, [], [], none⟩)
        (branches.map fun names => Path.join directory (slashed names)) hd hm
      have hk' := FileTree.keeps_withDirectories (tree.inserted (base ++ names) .directory) base made
      rw [← htree] at hk'
      rw [FileTree.withDirectories_inserted] at htree
      simp only [first, List.map_cons, he, tree_behind, fault_behind]
      refine ⟨names :: made, List.cons_prefix_cons.mpr ⟨rfl, hbelow⟩, htree, hp', ?_, ?_⟩
      · intro other hmem
        rcases List.mem_cons.mp hmem with rfl | hmem
        · exact hopens.keeps hplain hk'
        · exact ho' other hmem
      · rw [hfault, List.cons_inj_right]
    · obtain ⟨entries, fault, he⟩ := directories_cons_of_fault (fun after => ⟨after, [], [], none⟩)
        (branches.map fun names => Path.join directory (slashed names)) hd hm
      simp only [first, List.map_cons, he]
      exact ⟨[], List.nil_prefix, (tree.withDirectories_nil base).symm, hp, by simp, by simp⟩

/-- Where nothing stands, all directories are made if the file system takes their paths. -/
theorem fault_directories_of_fits (ho : tree.Opens directory base) (hp : tree.Plain)
    (h : tree.Layers directory branches) (hnull : ∀ names ∈ branches, ∀ n ∈ names, '\x00' ∉ n)
    (hfits : ∀ names ∈ branches, Fits (Path.join directory (slashed names)))
    (hnone : ∀ names ∈ branches, tree.lookup? (base ++ names) = none) :
    (directories tree (fun after => ⟨after, [], [], none⟩)
      (branches.map fun names => Path.join directory (slashed names))).fault = none := by
  induction branches generalizing tree with
  | nil => rfl
  | cons names branches ih =>
    have hnames := h.isName names (by simp)
    have hd := h.missing names (by simp)
    have hmade := ho.makeDirectories_eq hp hnames (hnull names (by simp)) (h.ne_nil names (by simp))
      (h.ready ho hp) (hnone names (by simp)) (hfits names (by simp))
    rcases ho.makeDirectories_cases hp hnames (h.ne_nil names (by simp)) (h.ready ho hp) hd with
      ⟨hfree, hplain, hopens, _⟩ | ⟨fault, hm⟩
    · obtain ⟨entries, he⟩ := directories_cons_of_done (fun after => ⟨after, [], [], none⟩)
        (branches.map fun names => Path.join directory (slashed names)) hd hmade
      have hk := FileTree.keeps_inserted tree (base ++ names) .directory
      have hothers : ∀ other ∈ branches,
          (tree.inserted (base ++ names) .directory).lookup? (base ++ other) = none := by
        intro other hm
        have hne : base ++ other ≠ base ++ names := by
          intro heq
          exact (List.nodup_cons.mp h.nodup).1 (List.append_cancel_left heq ▸ hm)
        rw [FileTree.lookup?_inserted (FileTree.ne_nil_of_lookup?_none hfree) hfree, if_neg hne]
        exact hnone other (by simp [hm])
      rw [List.map_cons, he, fault_behind]
      exact ih (ho.keeps hp hk) hplain (h.tail ho hp hfree hplain hopens)
        (fun other hm => hnull other (by simp [hm])) (fun other hm => hfits other (by simp [hm])) hothers
    · rw [hmade] at hm
      cases congrArg Change.fault hm

/-- What is the case after the first part of a run. The first of the missing directories, in order, have
been added, and all of them if there is no fault. -/
structure Prepares (tree : FileTree) (plan : Plan) (directory : Text) (base : Location)
    (branches made : List (List Text)) : Prop where
  paths : branches.map (fun names => Path.join directory (slashed names)) =
    Text.sorted plan.newDirectories
  in_order : made <+: branches
  tree_eq : (prepared tree plan).tree = tree.withDirectories base made
  plain : (prepared tree plan).tree.Plain
  opens : ∀ names ∈ made,
    (prepared tree plan).tree.Opens (Path.join directory (slashed names)) (base ++ names)
  no_fault : (prepared tree plan).fault = none ↔ made = branches

namespace Prepares

variable {plan : Plan} {made : List (List Text)} {place : Location}

theorem keeps (h : Prepares tree plan directory base branches made) :
    tree.Keeps (prepared tree plan).tree := by
  rw [h.tree_eq]
  exact FileTree.keeps_withDirectories tree base made

theorem mem_newDirectories_iff (h : Prepares tree plan directory base branches made) {d : Text} :
    d ∈ plan.newDirectories ↔ ∃ names ∈ branches, d = Path.join directory (slashed names) := by
  rw [← Text.mem_sorted, ← h.paths, List.mem_map]
  exact exists_congr fun names => and_congr_right fun _ => eq_comm

/-- Where the tree has changed there is one of the missing directories. -/
theorem exists_of_changed (h : Prepares tree plan directory base branches made)
    (hc : (prepared tree plan).tree.lookup? place ≠ tree.lookup? place) :
    tree.lookup? place = none ∧ ∃ d ∈ plan.newDirectories,
      (prepared tree plan).tree.entryAt d = .ok (place, .directory) := by
  have hadded : ∃ names ∈ made, base ++ names = place := by
    by_contra hnone
    apply hc
    rw [h.tree_eq, FileTree.withDirectories]
    apply FileTree.lookup?_extended_of_notMem
    intro e he heq
    obtain ⟨names, hm, rfl⟩ := List.mem_map.mp he
    exact hnone ⟨names, hm, heq⟩
  obtain ⟨names, hm, rfl⟩ := hadded
  have ho := h.opens names hm
  refine ⟨?_, _, h.mem_newDirectories_iff.mpr ⟨names, h.in_order.subset hm, rfl⟩,
    h.plain.entryAt_eq_ok_iff.mpr ⟨ho.reaches, ho.directory⟩⟩
  by_contra hsome
  obtain ⟨entry, he⟩ := Option.ne_none_iff_exists'.mp hsome
  apply hc
  rw [he, h.tree_eq]
  exact FileTree.lookup?_extended_of_some _ he

/-- If there is no fault, the missing directories are there. -/
theorem exists_opens (h : Prepares tree plan directory base branches made)
    (hf : (prepared tree plan).fault = none) {d : Text} (hd : d ∈ plan.newDirectories) :
    ∃ place, (prepared tree plan).tree.Opens d place := by
  obtain ⟨names, hm, rfl⟩ := h.mem_newDirectories_iff.mp hd
  rw [← h.no_fault.mp hf] at hm
  exact ⟨_, h.opens names hm⟩

end Prepares

section

variable (records : List Record) (pattern : Pattern) (levels : List Pattern) (valid : List Text)

theorem exists_prepares (ho : tree.Opens directory base) (hp : tree.Plain) :
    ∃ branches made, (∀ names ∈ branches, Plan.IsBranch records levels names) ∧
      tree.Layers directory branches ∧
      Prepares tree (Plan.ofRecords tree records pattern levels directory valid) directory base branches
        made := by
  obtain ⟨branches, hmap, hbranches, hlayers⟩ :=
    Plan.exists_branches tree records pattern levels directory valid
  obtain ⟨made, hpre, htree, hplain, hopens, hfault⟩ := directories_layers ho hp hlayers
  rw [hmap] at htree hplain hopens hfault
  exact ⟨branches, made, hbranches, hlayers, hmap, hpre, htree, hplain, hopens, hfault⟩

/-- Where nothing is in the way, the first part of a run comes through exactly if the file system takes the
paths of the missing directories. -/
theorem fault_prepared_eq_none_iff (ho : tree.Opens directory base) (hp : tree.Plain)
    (hfree : ∀ d ∈ (Plan.ofRecords tree records pattern levels directory valid).newDirectories,
      tree.exists? (Path.bare d) = false) :
    let plan := Plan.ofRecords tree records pattern levels directory valid
    (prepared tree plan).fault = none ↔ ∀ d ∈ plan.newDirectories, Fits d := by
  intro plan
  obtain ⟨branches, made, hbranches, hlayers, h⟩ :=
    exists_prepares records pattern levels valid ho hp
  constructor
  · intro hnone d hd
    obtain ⟨_, hopens⟩ := h.exists_opens hnone hd
    exact hopens.fits
  · intro hfits
    have hmem {names : List Text} (hm : names ∈ branches) :
        Path.join directory (slashed names) ∈ plan.newDirectories :=
      h.mem_newDirectories_iff.mpr ⟨names, hm, rfl⟩
    rw [prepared, ← h.paths]
    exact fault_directories_of_fits ho hp hlayers (fun names hm => (hbranches names hm).null_notMem)
      (fun names hm => hfits _ (hmem hm)) fun names hm =>
        ho.lookup?_eq_none hp (hbranches names hm).isName (hbranches names hm).null_notMem
          (hbranches names hm).1 (hfits _ (hmem hm)) (hfree _ (hmem hm))

variable {records pattern levels valid}

/-- When the first part of a run has come through, planned files have a directory to go to. -/
theorem isDirectory_parent (ho : tree.Opens directory base) (hp : tree.Plain)
    (hf : (prepared tree (Plan.ofRecords tree records pattern levels directory valid)).fault = none)
    {f : PlannedFile} (hm : f ∈ (Plan.ofRecords tree records pattern levels directory valid).files) :
    (prepared tree (Plan.ofRecords tree records pattern levels directory valid)).tree.isDirectory
      (Path.parent f.target) = true := by
  obtain ⟨branches, made, _, _, h⟩ := exists_prepares records pattern levels valid ho hp
  obtain ⟨r, hr, number, rfl⟩ := Plan.exists_of_mem_files hm
  rw [Plan.parent_target, h.plain.isDirectory_iff_opens]
  by_cases hnil : Plan.levelNames levels r = []
  · rw [hnil, Path.slashed_nil, Path.normal_join_nil]
    exact ⟨base, (ho.keeps hp h.keeps).normal⟩
  · have hb : Plan.IsBranch records levels (Plan.levelNames levels r) :=
      ⟨hnil, r, hr, List.prefix_refl _⟩
    cases hd : tree.isDirectory (Path.join directory (slashed (Plan.levelNames levels r))) with
    | true =>
      obtain ⟨place, hplace⟩ := hp.isDirectory_iff_opens.mp hd
      exact ⟨place, (hplace.keeps hp h.keeps).normal⟩
    | false =>
      obtain ⟨place, hplace⟩ :=
        h.exists_opens hf (Plan.mem_newDirectories.mpr ⟨⟨_, hb, rfl⟩, hd⟩)
      exact ⟨place, hplace.normal⟩

end

/-- The missing directories of a plan are those of its records that are not there, each once and behind
those above it. In a tree without links where nothing is in the way, the first part of a run comes through
exactly if the file system takes their paths; then all planned files have a directory to go to. Nothing
else has been made, whether it comes through or not. -/
theorem new_directories_exact (tree : FileTree) (records : List Record) (pattern : Pattern)
    (levels : List Pattern) (directory : Text) (valid : List Text) :
    let plan := Plan.ofRecords tree records pattern levels directory valid
    let first := prepared tree plan
    plan.newDirectories.Nodup ∧
      (∀ d, d ∈ plan.newDirectories ↔
        (∃ r ∈ records, ∃ rel ∈ FileName.directories r levels, d = Path.join directory rel) ∧
          tree.isDirectory d = false) ∧
      (∀ front d back, plan.newDirectories = front ++ d :: back →
        ∀ above ∈ plan.newDirectories, above <+: d → above ≠ d → above ∈ front) ∧
      (tree.Plain → tree.isDirectory directory = true →
        (∀ d ∈ plan.newDirectories, tree.exists? (Path.bare d) = false) →
        (first.fault = none ↔ ∀ d ∈ plan.newDirectories, Fits d) ∧
          (first.fault = none →
            ∀ f ∈ plan.files, first.tree.isDirectory (Path.parent f.target) = true) ∧
          ∀ place, first.tree.lookup? place ≠ tree.lookup? place →
            tree.lookup? place = none ∧
              ∃ d ∈ plan.newDirectories, first.tree.entryAt d = .ok (place, .directory)) := by
  intro plan first
  refine ⟨Plan.nodup_newDirectories, fun d => Plan.mem_newDirectories_iff,
    fun front d back he above => Plan.mem_front_of_above he, fun hp hd hfree => ?_⟩
  obtain ⟨base, ho⟩ := hp.isDirectory_iff_opens.mp hd
  obtain ⟨branches, made, _, _, h⟩ := exists_prepares records pattern levels valid ho hp
  exact ⟨fault_prepared_eq_none_iff records pattern levels valid ho hp hfree,
    fun hf f hm => isDirectory_parent ho hp hf hm, fun place hc => h.exists_of_changed hc⟩

/-- The photo of a working directory that is the root, and a plan with one directory level. -/
private def rootPhoto : FileTree where
  entries := [(["a.jpg"], .file (.ofText ['a'] 0))]
  working := []

private def levelOf (t : Text) : Pattern := ⟨t, [.literal t]⟩

private theorem plain_rootPhoto : rootPhoto.Plain := by decide

private theorem opens_rootPhoto : rootPhoto.Opens ['.'] [] :=
  ⟨⟨⟨by decide, by decide, by decide⟩, rfl⟩, rfl⟩

private theorem isDirectory_rootPhoto : rootPhoto.isDirectory ['.'] = true :=
  plain_rootPhoto.isDirectory_iff_opens.mpr ⟨_, opens_rootPhoto⟩

private theorem levelNames_levelOf (t : Text) (r : Record) :
    Plan.levelNames [levelOf t] r = [FileName.level t] := by
  simp [Plan.levelNames, Pattern.render, levelOf, Segment.render]

/-- The one missing directory of a plan with one level. -/
private theorem eq_of_mem_newDirectories {t d : Text}
    (h : d ∈ (Plan.ofRecords rootPhoto [.empty "a.jpg"] (levelOf ['p']) [levelOf t] ['.']
      [".jpg"]).newDirectories) :
    d = Path.join ['.'] (slashed [FileName.level t]) := by
  obtain ⟨⟨names, ⟨hne, r, hr, hpre⟩, rfl⟩, _⟩ := Plan.mem_newDirectories.mp h
  obtain rfl := List.mem_singleton.mp hr
  rw [levelNames_levelOf] at hpre
  rcases List.prefix_cons_iff.mp hpre with rfl | ⟨rest, rfl, hrest⟩
  · exact absurd rfl hne
  · rw [List.prefix_nil.mp hrest]

/-- A new name in the directory leads to nothing. -/
private theorem exists?_bare_join {t : Text} (hnone : rootPhoto.lookup? [FileName.level t] = none) :
    rootPhoto.exists? (Path.bare (Path.join ['.'] (slashed [FileName.level t]))) = false := by
  have hn := FileName.isName_level t
  have hb := Path.bare_join ['.'] (List.forall_mem_nil IsName) hn
  rw [List.nil_append, Path.slashed_nil, List.nil_append] at hb
  rw [hb]
  by_contra hc
  obtain ⟨place, entry, hr, he⟩ := plain_rootPhoto.exists?_iff.mp (by simpa using hc)
  have hw := opens_rootPhoto.walk_join hn.isAbsolute
  rw [Path.parts_name hn.no_slash] at hw
  obtain ⟨_, rfl⟩ := hr.eq_of_walk opens_rootPhoto.directory (List.forall_mem_singleton.mpr hn) hw
  rw [List.nil_append, hnone] at he
  cases he

theorem missing_level_is_made :
    let plan := Plan.ofRecords rootPhoto [.empty "a.jpg"] (levelOf ['p']) [levelOf ['x']] ['.'] [".jpg"]
    let first := prepared rootPhoto plan
    rootPhoto.Plain ∧ rootPhoto.isDirectory ['.'] = true ∧
      (∀ d ∈ plan.newDirectories, rootPhoto.exists? (Path.bare d) = false) ∧
      "./x/".toList ∈ plan.newDirectories ∧ first.fault = none ∧
      ∀ f ∈ plan.files, first.tree.isDirectory (Path.parent f.target) = true := by
  intro plan first
  have hfree : ∀ d ∈ plan.newDirectories, rootPhoto.exists? (Path.bare d) = false := by
    intro d hd
    rw [eq_of_mem_newDirectories hd]
    exact exists?_bare_join (by decide)
  have hmissing : rootPhoto.isDirectory "./x/" = false := by
    rw [Bool.eq_false_iff, ne_eq, plain_rootPhoto.isDirectory_iff_opens]
    rintro ⟨place, hopens⟩
    have hd := ((opens_rootPhoto.join_slashed_iff plain_rootPhoto.toWellFormed
      (List.forall_mem_singleton.mpr (FileName.isName_level ['x']))).mp hopens).2.2.2
    have hnone : rootPhoto.lookup? ([] ++ [FileName.level ['x']]) = none := by decide
    rw [hnone] at hd
    cases hd
  obtain ⟨_, hmem, _, hrun⟩ := new_directories_exact rootPhoto [.empty "a.jpg"] (levelOf ['p'])
    [levelOf ['x']] ['.'] [".jpg"]
  obtain ⟨hfault, hparent, _⟩ := hrun plain_rootPhoto isDirectory_rootPhoto hfree
  have hnone : first.fault = none := by
    apply hfault.mpr
    intro d hd
    rw [eq_of_mem_newDirectories hd]
    decide
  exact ⟨plain_rootPhoto, isDirectory_rootPhoto, hfree,
    (hmem _).mpr ⟨⟨_, List.mem_singleton_self _, "x/", by decide, by decide⟩, hmissing⟩, hnone,
    hparent hnone⟩

/-- A name that is one byte too long. -/
private def longName : Text := List.replicate 256 'x'

private theorem level_longName : FileName.level longName = longName := by decide +kernel

private theorem not_fits_longName :
    ¬ Fits (Path.normal (Path.join ['.'] (slashed [FileName.level longName]))) := by
  have hn : ∀ n ∈ [FileName.level longName], IsName n :=
    List.forall_mem_singleton.mpr (FileName.isName_level longName)
  intro h
  have hshort := h.names (FileName.level longName) (by
    rw [Path.components_normal, Path.normalParts_join_slashed _ hn]
    exact List.mem_append_right _ (List.mem_singleton_self _))
  rw [level_longName] at hshort
  exact absurd hshort (by decide +kernel)

/-- A level may have a name that the file system does not take. Then its photo has no directory to go to. -/
theorem long_level_is_not_made :
    let plan := Plan.ofRecords rootPhoto [.empty "a.jpg"] (levelOf ['p']) [levelOf longName] ['.']
      [".jpg"]
    let first := prepared rootPhoto plan
    rootPhoto.Plain ∧ rootPhoto.isDirectory ['.'] = true ∧
      (∀ d ∈ plan.newDirectories, rootPhoto.exists? (Path.bare d) = false) ∧ first.fault ≠ none ∧
      ∃ f ∈ plan.files, first.tree.isDirectory (Path.parent f.target) = false := by
  intro plan first
  have hfree : ∀ d ∈ plan.newDirectories, rootPhoto.exists? (Path.bare d) = false := by
    intro d hd
    rw [eq_of_mem_newDirectories hd]
    exact exists?_bare_join (by rw [level_longName]; decide +kernel)
  obtain ⟨f, hf⟩ := List.exists_mem_of_ne_nil plan.files
    (Plan.files_ne_nil_of_mem (List.mem_singleton_self _))
  have hmissing : first.tree.isDirectory (Path.parent f.target) = false := by
    obtain ⟨branches, made, _, _, h⟩ := exists_prepares [.empty "a.jpg"] (levelOf ['p'])
      [levelOf longName] [".jpg"] opens_rootPhoto plain_rootPhoto
    obtain ⟨r, _, number, rfl⟩ := Plan.exists_of_mem_files hf
    rw [Plan.parent_target, levelNames_levelOf, Bool.eq_false_iff, ne_eq,
      h.plain.isDirectory_iff_opens]
    rintro ⟨place, hopens⟩
    exact not_fits_longName hopens.fits
  refine ⟨plain_rootPhoto, isDirectory_rootPhoto, hfree, fun hnone => ?_, f, hf, hmissing⟩
  have hparent := isDirectory_parent opens_rootPhoto plain_rootPhoto hnone hf
  rw [hmissing] at hparent
  cases hparent

end Transfer

end PhotoNaming
