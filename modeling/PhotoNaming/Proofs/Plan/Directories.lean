import PhotoNaming.Proofs.FileTree.Making
import PhotoNaming.Proofs.Path.Directory
import PhotoNaming.Proofs.Plan.Targets
import PhotoNaming.Proofs.Text.Sorted
import Mathlib.Data.List.Nodup

/-! The directories a plan lists, as names below the directory for new files. Put in order, each comes
behind those it stands in. -/
namespace PhotoNaming

namespace Path

theorem join_slashed_inj (directory : Text) {a b : List Text} (ha : ∀ n ∈ a, IsName n)
    (hb : ∀ n ∈ b, IsName n) (h : join directory (slashed a) = join directory (slashed b)) :
    a = b := by
  rw [join_slashed directory ha, join_slashed directory hb] at h
  have hc : components (slashed a ++ []) = components (slashed b ++ []) := by
    rw [List.append_cancel_left h]
  rw [components_slashed ha, components_slashed hb] at hc
  simpa using hc

/-- A directory comes before those in it. -/
theorem join_slashed_lt (directory : Text) {above names : List Text} (hn : ∀ n ∈ names, IsName n)
    (hp : above <+: names) (hne : above ≠ names) :
    join directory (slashed above) < join directory (slashed names) := by
  obtain ⟨below, rfl⟩ := hp
  have hbelow : slashed below ≠ [] := by
    cases below with
    | nil => exact absurd (List.append_nil above).symm hne
    | cons n below => simp
  rw [join_slashed directory hn, join_slashed directory fun n hm => hn n (List.mem_append_left _ hm),
    slashed_append, ← List.append_assoc]
  exact lt_append _ hbelow

end Path

namespace Plan

open PhotoNaming.Path (IsName slashed)

/-- The names of the levels that patterns make for a record. -/
def levelNames (levels : List Pattern) (r : Record) : List Text :=
  levels.map fun p => FileName.level (p.render r)

theorem isName_of_mem_levelNames {levels : List Pattern} {r : Record} {n : Text}
    (h : n ∈ levelNames levels r) : IsName n := by
  obtain ⟨p, _, rfl⟩ := List.mem_map.mp h
  exact FileName.isName_level _

theorem lastDirectory_ofRecord (pattern : Pattern) (levels : List Pattern) (valid : List Text)
    (r : Record) :
    (NamedRecord.ofRecord pattern levels valid r).lastDirectory = slashed (levelNames levels r) :=
  (FileName.getLastD_nested _ _).trans (List.nil_append _)

/-- A planned file is to stand in the directory of its record's levels. -/
theorem parent_target (pattern : Pattern) (levels : List Pattern) (directory : Text)
    (valid : List Text) (number : Nat) (r : Record) :
    Path.parent (fileOf pattern levels directory valid number r).target =
      Path.normal (Path.join directory (slashed (levelNames levels r))) := by
  have hs := NamedRecord.sound_ofRecord pattern levels valid r
  have hlast := hs.isName_markedName .nil number
  rw [NamedRecord.markedName_nil] at hlast
  rw [fileOf, NamedRecord.target, lastDirectory_ofRecord]
  dsimp only
  exact Path.parent_normal_join directory (fun n hn => isName_of_mem_levelNames hn) hlast

/-- The names of the first levels of some record, of one or more. -/
def IsBranch (records : List Record) (levels : List Pattern) (names : List Text) : Prop :=
  names ≠ [] ∧ ∃ r ∈ records, names <+: levelNames levels r

variable {tree : FileTree} {records : List Record} {pattern : Pattern} {levels : List Pattern}
  {directory : Text} {valid : List Text} {names : List Text}

namespace IsBranch

theorem isName (h : IsBranch records levels names) : ∀ n ∈ names, IsName n := by
  obtain ⟨_, r, _, hp⟩ := h
  exact fun n hn => isName_of_mem_levelNames (hp.subset hn)

theorem of_prefix (h : IsBranch records levels names) {above : List Text} (hne : above ≠ [])
    (ha : above <+: names) : IsBranch records levels above := by
  obtain ⟨_, r, hr, hp⟩ := h
  exact ⟨hne, r, hr, ha.trans hp⟩

theorem length_le (h : IsBranch records levels names) : names.length ≤ levels.length := by
  obtain ⟨_, r, _, hp⟩ := h
  have hl := hp.length_le
  rwa [levelNames, List.length_map] at hl

end IsBranch

theorem mem_newDirectories {d : Text} :
    d ∈ (ofRecords tree records pattern levels directory valid).newDirectories ↔
      (∃ names, IsBranch records levels names ∧ d = Path.join directory (slashed names)) ∧
        tree.isDirectory d = false := by
  rw [ofRecords, ofNamed, mem_missingDirectories]
  apply and_congr_left
  intro _
  constructor
  · rintro ⟨n, hn, rel, hrel, rfl⟩
    obtain ⟨r, hr, rfl⟩ := List.mem_map.mp hn
    obtain ⟨names, hne, hp, rfl⟩ := FileName.mem_nested.mp hrel
    exact ⟨names, ⟨hne, r, hr, hp⟩, rfl⟩
  · rintro ⟨names, ⟨hne, r, hr, hp⟩, rfl⟩
    exact ⟨_, List.mem_map_of_mem hr, _, FileName.mem_nested.mpr ⟨names, hne, hp, rfl⟩, rfl⟩

theorem nodup_newDirectories :
    (ofRecords tree records pattern levels directory valid).newDirectories.Nodup := by
  have run (paths found : List Text) (hf : found.Nodup) : (paths.foldl (noted tree) found).Nodup := by
    induction paths generalizing found with
    | nil => exact hf
    | cons path paths ih =>
      rw [List.foldl_cons]
      refine ih _ ?_
      rw [noted]
      split
      · exact hf
      · rename_i hn
        rw [List.nodup_append]
        refine ⟨hf, by simp, ?_⟩
        rintro a ha b hb rfl
        rw [List.mem_singleton.mp hb] at ha
        exact hn (by simp [ha])
  exact run _ [] List.nodup_nil

private theorem exists_map_eq (paths : List Text)
    (h : ∀ d ∈ paths, ∃ names, IsBranch records levels names ∧
      d = Path.join directory (slashed names)) :
    ∃ branches : List (List Text), (∀ names ∈ branches, IsBranch records levels names) ∧
      branches.map (fun names => Path.join directory (slashed names)) = paths := by
  induction paths with
  | nil => exact ⟨[], by simp, rfl⟩
  | cons d paths ih =>
    obtain ⟨names, hb, rfl⟩ := h d (by simp)
    obtain ⟨branches, hall, hm⟩ := ih fun d hd => h d (by simp [hd])
    refine ⟨names :: branches, ?_, by rw [List.map_cons, hm]⟩
    intro other ho
    rcases List.mem_cons.mp ho with rfl | ho
    · exact hb
    · exact hall other ho

variable (tree records pattern levels directory valid)

/-- The missing directories in order: what stands above one comes before it or is there already. -/
theorem exists_branches :
    ∃ branches : List (List Text),
      branches.map (fun names => Path.join directory (slashed names)) =
        Text.sorted (ofRecords tree records pattern levels directory valid).newDirectories ∧
      (∀ names ∈ branches, IsBranch records levels names) ∧ tree.Layers directory branches := by
  obtain ⟨branches, hall, hmap⟩ := exists_map_eq
    (Text.sorted (ofRecords tree records pattern levels directory valid).newDirectories)
    fun d hd => (mem_newDirectories.mp (Text.mem_sorted.mp hd)).1
  have hmem {names : List Text} : Path.join directory (slashed names) ∈
      branches.map (fun names => Path.join directory (slashed names)) ↔
        Path.join directory (slashed names) ∈
          (ofRecords tree records pattern levels directory valid).newDirectories := by
    rw [hmap, Text.mem_sorted]
  refine ⟨branches, hmap, hall, fun names h => (hall names h).1, fun names h => (hall names h).isName,
    ?_, fun names h => (mem_newDirectories.mp (hmem.mp (List.mem_map_of_mem h))).2, ?_⟩
  · refine List.Nodup.of_map (fun names => Path.join directory (slashed names)) ?_
    rw [hmap]
    exact (Text.sorted_perm _).nodup_iff.mpr nodup_newDirectories
  · intro front names back he above hne hp hproper
    have hb := hall names (by simp [he])
    have habove := hb.of_prefix hne hp
    cases hd : tree.isDirectory (Path.join directory (slashed above)) with
    | true => exact .inr rfl
    | false =>
      obtain ⟨other, ho, heq⟩ :=
        List.mem_map.mp (hmem.mpr (mem_newDirectories.mpr ⟨⟨above, habove, rfl⟩, hd⟩))
      obtain rfl := Path.join_slashed_inj directory (hall other ho).isName habove.isName heq
      rw [he, List.mem_append, List.mem_cons] at ho
      rcases ho with ho | ho | ho
      · exact .inl ho
      · exact absurd ho hproper
      · have hpair := Text.pairwise_sorted
          (ofRecords tree records pattern levels directory valid).newDirectories
        rw [← hmap, he, List.pairwise_map] at hpair
        have hle := (List.pairwise_cons.mp (List.pairwise_append.mp hpair).2.1).1 other ho
        exact absurd (Path.join_slashed_lt directory hb.isName hp hproper) hle

end Plan

end PhotoNaming
