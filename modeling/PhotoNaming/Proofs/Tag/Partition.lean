import PhotoNaming.Proofs.Repeats
import PhotoNaming.Proofs.Tag.Grouping
import PhotoNaming.Proofs.Text.Separators
import Mathlib.Data.List.TakeWhile

/-! Groups as parts of a list of tags. No tag with a group is lost or doubled, and groups and the tags in them
keep the order in which they come. -/
namespace PhotoNaming

namespace TagGroup

/-- Groups that hold the tags of a list and nothing else: those whose keys have a space, each once, in the
group that its key names before the first space, under what the key says behind it, with its own report. -/
structure Partitions (tags : List (Text × Tag)) (groups : List TagGroup) : Prop where
  distinct : (groups.map (·.name)).Nodup
  names : groups.map (·.name) =
    ((tags.filter fun e => ' ' ∈ e.1).map fun e => e.1.takeWhile (· ≠ ' ')).eraseDups
  held : ∀ g ∈ groups, ' ' ∉ g.name ∧
    List.Forall₂ (fun e t => e.1 = g.name ++ ' ' :: t.1 ∧ (e.2.report t.1).result = .ok t.2)
      (tags.filter fun e => g.name ++ [' '] <+: e.1) g.tags
  once : (groups.flatMap fun g => g.tags.map fun t => g.name ++ ' ' :: t.1).Perm
    ((tags.map (·.1)).filter (' ' ∈ ·))

/-- Whether a line is that of an entry. -/
def IsLineOf (e : Text × Tag) (l : Line) : Prop :=
  ' ' ∉ l.group ∧ e.1 = l.group ++ ' ' :: l.name ∧ (e.2.report l.name).result = .ok l.text

/-- The lines in groups, which stand in the order in which they first come up. -/
def grouped (lines : List Line) : List TagGroup :=
  (lines.map (·.group)).eraseDups.map fun group =>
    ⟨group, (lines.filter (·.group = group)).map fun l => (l.name, l.text)⟩

variable {tags : List (Text × Tag)} {lines : List Line} {groups : List TagGroup} {e : Text × Tag} {l : Line}

theorem map_name_grouped (lines : List Line) :
    (grouped lines).map (·.name) = (lines.map (·.group)).eraseDups := by
  rw [grouped, List.map_map]
  exact List.map_id _

/-- A line more is put in its group. -/
theorem put_grouped (lines : List Line) (l : Line) : put (grouped lines) l = grouped (lines ++ [l]) := by
  have hmem : l.group ∈ (grouped lines).map (·.name) ↔ l.group ∈ lines.map (·.group) := by
    rw [map_name_grouped, List.mem_eraseDups]
  by_cases hm : l.group ∈ lines.map (·.group)
  · rw [put_of_mem (hmem.mpr hm), grouped, grouped, List.map_append, List.map_singleton,
      eraseDups_concat_of_mem hm, List.map_map]
    refine List.map_congr_left fun group _ => ?_
    by_cases hg : l.group = group
    · simp [Line.appended, hg]
    · simp [Line.appended, hg, Ne.symm hg]
  · rw [put_of_notMem (mt hmem.mp hm), grouped, grouped, List.map_append, List.map_singleton,
      eraseDups_concat_of_notMem hm, List.map_append]
    congr 1
    · refine List.map_congr_left fun group hg => ?_
      have hne : l.group ≠ group := fun h => hm (h ▸ List.mem_eraseDups.mp hg)
      simp [hne]
    · have hnone : lines.filter (·.group = l.group) = [] := by
        rw [List.filter_eq_nil_iff]
        exact fun other ho h => hm (List.mem_map.mpr ⟨other, ho, of_decide_eq_true h⟩)
      simp [hnone]

theorem foldl_put_nil (lines : List Line) : lines.foldl put [] = grouped lines := by
  induction lines using List.reverseRecOn with
  | nil => rfl
  | append_singleton lines l ih => rw [List.foldl_concat, ih, put_grouped]

/-- The entries with a space in their keys and the lines are the same in number and order. -/
theorem Lines.forall₂ (h : Lines tags lines) :
    List.Forall₂ IsLineOf (tags.filter fun e => ' ' ∈ e.1) lines := by
  induction h with
  | nil => exact .nil
  | skip hk _ ih => rwa [List.filter_cons_of_neg (by simpa using Text.cutAt?_eq_none_iff.mp hk)]
  | line hk hr _ ih =>
    obtain ⟨hm, rfl⟩ := Text.cutAt?_eq_some_iff.mp hk
    rw [List.filter_cons_of_pos (by simp)]
    exact .cons ⟨hm, rfl, hr⟩ ih

theorem IsLineOf.takeWhile_eq (h : IsLineOf e l) : e.1.takeWhile (· ≠ ' ') = l.group := by
  obtain ⟨hm, hk, _⟩ := h
  have hall : ∀ c ∈ l.group, decide (c ≠ ' ') = true := fun c hc => by
    rw [decide_eq_true_eq]
    rintro rfl
    exact hm hc
  rw [hk, List.takeWhile_append_of_pos hall, List.takeWhile_cons_of_neg (by simp), List.append_nil]

theorem IsLineOf.prefix_iff (h : IsLineOf e l) {group : Text} (hg : ' ' ∉ group) :
    group ++ [' '] <+: e.1 ↔ l.group = group := by
  obtain ⟨hm, hk, _⟩ := h
  rw [hk]
  constructor
  · rintro ⟨rest, hrest⟩
    have hcut := Text.cutAt?_append_cons hg rest
    rw [List.append_assoc, List.singleton_append] at hrest
    rw [hrest, Text.cutAt?_append_cons hm] at hcut
    cases hcut
    rfl
  · rintro rfl
    exact ⟨l.name, by simp⟩

theorem partitions_grouped (h : Lines tags lines) : Partitions tags (grouped lines) := by
  have hlines := h.forall₂
  have hnames : ((tags.filter fun e => ' ' ∈ e.1).map fun e => e.1.takeWhile (· ≠ ' ')) =
      lines.map (·.group) := by
    rw [← List.forall₂_eq_eq_eq, List.forall₂_map_left_iff, List.forall₂_map_right_iff]
    exact hlines.imp fun _ _ hl => hl.takeWhile_eq
  have hkeys : (tags.map (·.1)).filter (' ' ∈ ·) = lines.map fun l => l.group ++ ' ' :: l.name := by
    rw [List.filter_map, ← List.forall₂_eq_eq_eq, List.forall₂_map_left_iff, List.forall₂_map_right_iff]
    exact hlines.imp fun _ _ hl => hl.2.1
  have hgroup : ∀ group ∈ lines.map (·.group), ' ' ∉ group := by
    rw [← hnames]
    rintro group hg hm
    obtain ⟨e, _, rfl⟩ := List.mem_map.mp hg
    simpa using List.mem_takeWhile_imp hm
  refine ⟨?_, ?_, ?_, ?_⟩
  · rw [map_name_grouped]
    exact nodup_eraseDups _
  · rw [map_name_grouped, hnames]
  · intro g hg
    obtain ⟨group, hm, rfl⟩ := List.mem_map.mp hg
    have hspace := hgroup group (List.mem_eraseDups.mp hm)
    refine ⟨hspace, ?_⟩
    have hpart : List.Forall₂ IsLineOf (tags.filter fun e => group ++ [' '] <+: e.1)
        (lines.filter (·.group = group)) := by
      have hfilter := List.rel_filter (p := fun e => decide (group ++ [' '] <+: e.1))
        (q := fun l => decide (l.group = group)) (fun e l hl => by simpa using hl.prefix_iff hspace) hlines
      rw [List.filter_filter] at hfilter
      refine List.filter_congr (fun e _ => ?_) ▸ hfilter
      by_cases hp : group ++ [' '] <+: e.1
      · have hin : ' ' ∈ e.1 := hp.subset (by simp)
        simp [hp, hin]
      · simp [hp]
    have hstart : ∀ e ∈ tags.filter fun e => group ++ [' '] <+: e.1, group ++ [' '] <+: e.1 :=
      fun e he => of_decide_eq_true (List.mem_filter.mp he).2
    rw [List.forall₂_map_right_iff]
    refine ((List.forall₂_and_left _ _).mpr ⟨hstart, hpart⟩).imp ?_
    rintro e l ⟨hp, hl⟩
    obtain rfl := (hl.prefix_iff hspace).mp hp
    exact hl.2
  · have hparts : (grouped lines).flatMap (fun g => g.tags.map fun t => g.name ++ ' ' :: t.1) =
        ((lines.map (·.group)).eraseDups.flatMap fun group => lines.filter (·.group = group)).map
          fun l => l.group ++ ' ' :: l.name := by
      rw [grouped, List.flatMap_map, List.map_flatMap]
      refine List.flatMap_congr fun group _ => ?_
      rw [List.map_map]
      refine List.map_congr_left fun l hl => ?_
      rw [← of_decide_eq_true (List.mem_filter.mp hl).2]
      rfl
    rw [hparts, hkeys]
    exact (flatMap_filter_perm (nodup_eraseDups _) fun l hl =>
      List.mem_eraseDups.mpr (List.mem_map_of_mem hl)).map _

/-- The groups of tags that can all be reported are a partition of the tags with a group. -/
theorem groups_partition_tags (h : (ofTags tags).result = .ok groups) : Partitions tags groups := by
  obtain ⟨lines, hl, rfl⟩ := result_ofTagsBehind_eq_ok_iff.mp h
  rw [foldl_put_nil]
  exact partitions_grouped hl

/-- Groups that take turns, a key without a group, one that begins with a space and one that ends with one. -/
theorem groups_in_turn :
    let plain (t : Text) : Tag := { printed := t, values := none }
    let tags : List (Text × Tag) :=
      [("EXIF ISO".toList, plain "100"), ("Image Make".toList, plain "SONY"),
        ("JPEGThumbnail".toList, plain "x"), (" Note".toList, plain "a"),
        ("EXIF User Comment".toList, plain "b"), ("Image ".toList, plain "c")]
    let groups : List TagGroup :=
      [⟨"EXIF", [("ISO", "100"), ("User Comment", "b")]⟩, ⟨"Image", [("Make", "SONY"), ([], "c")]⟩,
        ⟨[], [("Note", "a")]⟩]
    (ofTags tags).result = .ok groups ∧ Partitions tags groups := by
  intro plain tags groups
  have h : (ofTags tags).result = .ok groups := by decide +kernel
  exact ⟨h, groups_partition_tags h⟩

end TagGroup

end PhotoNaming
