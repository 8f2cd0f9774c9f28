import PhotoNaming.FileTree.Change
import Mathlib.Data.List.Nodup

/-! Looking up places of file trees. In a well-formed tree all that stands at a place stands in a
directory, and putting in or moving an entry changes what is found at its own places only. -/
namespace PhotoNaming

/-- The data of an entry that is a file. -/
def Entry.data? : Entry → Option FileData
  | .file data => some data
  | _ => none

namespace FileTree

/-- No place has two entries, and every entry stands in a directory. The working directory is one. -/
structure WellFormed (tree : FileTree) : Prop where
  nodup : (tree.entries.map (·.1)).Nodup
  place_ne_nil : ∀ e ∈ tree.entries, e.1 ≠ []
  above : ∀ e ∈ tree.entries, tree.lookup? e.1.dropLast = some .directory
  working : tree.lookup? tree.working = some .directory

/-- No entry is a symbolic link. -/
def LinkFree (tree : FileTree) : Prop := ∀ e ∈ tree.entries, ∀ target, e.2 ≠ .link target

/-- The data of all files, in the order of the entries. -/
def files (tree : FileTree) : List FileData := tree.entries.filterMap (·.2.data?)

/-- The tree with more entries. -/
def extended (tree : FileTree) (more : List (Location × Entry)) : FileTree :=
  { tree with entries := tree.entries ++ more }

variable {tree : FileTree} {place : Location} {entry : Entry}

@[simp] theorem extended_nil (tree : FileTree) : tree.extended [] = tree := by simp [extended]

theorem extended_extended (tree : FileTree) (more others : List (Location × Entry)) :
    (tree.extended more).extended others = tree.extended (more ++ others) := by
  simp [extended]

theorem extended_inserted (tree : FileTree) (place : Location) (entry : Entry)
    (more : List (Location × Entry)) :
    (tree.inserted place entry).extended more = tree.extended ((place, entry) :: more) := by
  simp [extended, inserted]

@[simp] theorem lookup?_nil (tree : FileTree) : tree.lookup? [] = some .directory := rfl

theorem holdsDirectory_iff : tree.holdsDirectory place = true ↔ tree.lookup? place = some .directory := by
  unfold holdsDirectory
  split
  · rename_i h
    simp [h]
  · rename_i h
    simpa using h

instance (tree : FileTree) : Decidable tree.WellFormed :=
  decidable_of_iff
    ((tree.entries.map (·.1)).Nodup ∧ (∀ e ∈ tree.entries, e.1 ≠ []) ∧
      (∀ e ∈ tree.entries, tree.holdsDirectory e.1.dropLast = true) ∧
      tree.holdsDirectory tree.working = true)
    ⟨fun h => ⟨h.1, h.2.1, fun e he => holdsDirectory_iff.mp (h.2.2.1 e he),
        holdsDirectory_iff.mp h.2.2.2⟩,
      fun h => ⟨h.nodup, h.place_ne_nil, fun e he => holdsDirectory_iff.mpr (h.above e he),
        holdsDirectory_iff.mpr h.working⟩⟩

instance (entry : Entry) : Decidable (∀ target, entry ≠ .link target) :=
  match entry with
  | .directory => .isTrue nofun
  | .file _ => .isTrue nofun
  | .special _ => .isTrue nofun
  | .link target => .isFalse fun h => h target rfl

instance (tree : FileTree) : Decidable tree.LinkFree :=
  inferInstanceAs (Decidable (∀ e ∈ tree.entries, ∀ target, e.2 ≠ .link target))

theorem mem_entries_of_lookup? (hp : place ≠ []) (h : tree.lookup? place = some entry) :
    (place, entry) ∈ tree.entries := by
  rw [lookup?, if_neg hp, Option.map_eq_some_iff] at h
  obtain ⟨e, he, rfl⟩ := h
  have hm := List.mem_of_find?_eq_some he
  have hk := List.find?_some he
  rw [decide_eq_true_eq] at hk
  rw [← hk]
  exact hm

theorem WellFormed.lookup?_of_mem (hw : tree.WellFormed) (h : (place, entry) ∈ tree.entries) :
    tree.lookup? place = some entry := by
  rw [lookup?, if_neg (hw.place_ne_nil _ h)]
  have hs : (tree.entries.find? (·.1 = place)).isSome :=
    List.find?_isSome.mpr ⟨_, h, by simp⟩
  obtain ⟨e, he⟩ := Option.isSome_iff_exists.mp hs
  have hk := List.find?_some he
  rw [decide_eq_true_eq] at hk
  have heq : e = (place, entry) :=
    List.inj_on_of_nodup_map hw.nodup (List.mem_of_find?_eq_some he) h hk
  rw [he, heq]
  rfl

theorem WellFormed.lookup?_dropLast (hw : tree.WellFormed) (h : tree.lookup? place = some entry) :
    tree.lookup? place.dropLast = some .directory := by
  by_cases hp : place = []
  · rw [hp]
    rfl
  · exact hw.above _ (mem_entries_of_lookup? hp h)

/-- All that an entry stands below is a directory. -/
theorem WellFormed.lookup?_append (hw : tree.WellFormed) {names : List Text} (hn : names ≠ [])
    (h : tree.lookup? (place ++ names) = some entry) : tree.lookup? place = some .directory := by
  induction names generalizing place with
  | nil => exact absurd rfl hn
  | cons name rest ih =>
    obtain ⟨found, hf⟩ : ∃ found, tree.lookup? (place ++ [name]) = some found := by
      by_cases hr : rest = []
      · exact ⟨entry, by rw [← h, hr]⟩
      · exact ⟨_, ih hr (by rw [List.append_assoc]; exact h)⟩
    have hd := hw.lookup?_dropLast hf
    rw [List.dropLast_concat] at hd
    exact hd

theorem lookup?_extended_of_some (more : List (Location × Entry))
    (h : tree.lookup? place = some entry) : (tree.extended more).lookup? place = some entry := by
  unfold lookup? at h ⊢
  split
  · rename_i hp
    rw [if_pos hp] at h
    exact h
  · rename_i hp
    rw [if_neg hp, Option.map_eq_some_iff] at h
    obtain ⟨e, he, rfl⟩ := h
    rw [extended, List.find?_append, he]
    rfl

theorem lookup?_inserted_of_some {other : Location} {found : Entry}
    (h : tree.lookup? other = some found) : (tree.inserted place entry).lookup? other = some found :=
  lookup?_extended_of_some [(place, entry)] h

theorem lookup?_inserted (hp : place ≠ []) (hn : tree.lookup? place = none) (entry : Entry)
    (other : Location) :
    (tree.inserted place entry).lookup? other =
      if other = place then some entry else tree.lookup? other := by
  by_cases ho : other = []
  · subst ho
    rw [if_neg (Ne.symm hp)]
    rfl
  · rw [lookup?, if_neg hp, Option.map_eq_none_iff] at hn
    rw [lookup?, lookup?, if_neg ho, if_neg ho, inserted, List.find?_append]
    by_cases he : other = place
    · subst he
      simp [hn]
    · simp [he, Ne.symm he]

theorem lookup?_extended_of_notMem {more : List (Location × Entry)} (h : ∀ e ∈ more, e.1 ≠ place) :
    (tree.extended more).lookup? place = tree.lookup? place := by
  have hn : more.find? (·.1 = place) = none := by
    rw [List.find?_eq_none]
    intro e he
    simpa using h e he
  rw [lookup?, lookup?, extended, List.find?_append, hn, Option.or_none]

theorem WellFormed.inserted (hw : tree.WellFormed) (hp : place ≠ [])
    (hn : tree.lookup? place = none) (ha : tree.lookup? place.dropLast = some .directory)
    (entry : Entry) : (tree.inserted place entry).WellFormed := by
  refine ⟨?_, ?_, ?_, lookup?_inserted_of_some hw.working⟩
  · rw [FileTree.inserted, List.map_append, List.nodup_append]
    refine ⟨hw.nodup, by simp, ?_⟩
    rintro a ha b hb rfl
    obtain ⟨⟨key, old⟩, he, rfl⟩ := List.mem_map.mp ha
    have hb : key = place := by simpa using hb
    rw [hb] at he
    simp [hw.lookup?_of_mem he] at hn
  · intro e he
    rcases List.mem_append.mp he with he | he
    · exact hw.place_ne_nil e he
    · rw [List.mem_singleton.mp he]
      exact hp
  · intro e he
    rcases List.mem_append.mp he with he | he
    · exact lookup?_inserted_of_some (hw.above e he)
    · rw [List.mem_singleton.mp he]
      exact lookup?_inserted_of_some ha

theorem LinkFree.inserted (hl : tree.LinkFree) (place : Location)
    (he : ∀ target, entry ≠ .link target) : (tree.inserted place entry).LinkFree := by
  intro e hm
  rcases List.mem_append.mp hm with hm | hm
  · exact hl e hm
  · rw [List.mem_singleton.mp hm]
    exact he

theorem LinkFree.lookup?_ne_link (hl : tree.LinkFree) (place : Location) (target : Text) :
    tree.lookup? place ≠ some (.link target) := by
  intro h
  by_cases hp : place = []
  · rw [hp, lookup?_nil] at h
    cases h
  · exact hl _ (mem_entries_of_lookup? hp h) target rfl

theorem files_inserted_directory (tree : FileTree) (place : Location) :
    (tree.inserted place .directory).files = tree.files := by
  simp [files, inserted, Entry.data?]

section Relocating

variable {old new : Location}

/-- Moving anything but a directory to a free place changes the place of its entry and nothing else. -/
theorem WellFormed.entries_relocated (hw : tree.WellFormed)
    (ho : tree.lookup? old = some entry)
    (hd : entry ≠ .directory) (hn : tree.lookup? new = none) :
    (tree.relocated old new).entries =
      tree.entries.map fun e => (if e.1 = old then new else e.1, e.2) := by
  have hne : old ≠ new := by
    rintro rfl
    simp [ho] at hn
  have hkeep : (tree.removed new).entries = tree.entries := by
    rw [removed, List.filter_eq_self]
    intro e he
    have hf := hw.lookup?_of_mem (show (e.1, e.2) ∈ tree.entries from he)
    simp only [Bool.not_eq_true', ← Bool.not_eq_true, List.isPrefixOf_iff_prefix]
    rintro ⟨rest, hrest⟩
    rw [← hrest] at hf
    by_cases hr : rest = []
    · simp [hr, hn] at hf
    · simp [hw.lookup?_append hr hf] at hn
  rw [relocated, if_neg hne, hkeep]
  apply List.map_congr_left
  intro ⟨other, found⟩ he
  have hf := hw.lookup?_of_mem he
  dsimp only
  by_cases heo : other = old
  · simp [heo, List.isPrefixOf_iff_prefix]
  · rw [if_neg heo, if_neg]
    rw [List.isPrefixOf_iff_prefix]
    rintro ⟨rest, hrest⟩
    rw [← hrest] at hf
    have hr : rest ≠ [] := by
      rintro rfl
      exact heo (by rw [← hrest, List.append_nil])
    exact hd (Option.some.inj (ho.symm.trans (hw.lookup?_append hr hf)))

private theorem find?_map_place (entries : List (Location × Entry)) (hne : old ≠ new)
    (hn : ∀ e ∈ entries, e.1 ≠ new) (other : Location) :
    ((entries.map fun e => (if e.1 = old then new else e.1, e.2)).find? (·.1 = other)).map (·.2) =
      if other = new then (entries.find? (·.1 = old)).map (·.2)
      else if other = old then none else (entries.find? (·.1 = other)).map (·.2) := by
  induction entries with
  | nil => simp
  | cons e rest ih =>
    have ih := ih fun e he => hn e (by simp [he])
    have he := hn e (by simp)
    grind

theorem WellFormed.lookup?_relocated (hw : tree.WellFormed)
    (ho : tree.lookup? old = some entry)
    (hd : entry ≠ .directory) (hn : tree.lookup? new = none) (other : Location) :
    (tree.relocated old new).lookup? other =
      if other = new then some entry else if other = old then none
      else tree.lookup? other := by
  have hold : old ≠ [] := by
    rintro rfl
    exact hd (Option.some.inj ho).symm
  have hnew : new ≠ [] := by
    rintro rfl
    simp at hn
  have hne : old ≠ new := by
    rintro rfl
    simp [ho] at hn
  by_cases hother : other = []
  · subst hother
    rw [if_neg (Ne.symm hnew), if_neg (Ne.symm hold)]
    rfl
  · have hfree : ∀ e ∈ tree.entries, e.1 ≠ new := by
      rintro e he rfl
      simp [hw.lookup?_of_mem (show (e.1, e.2) ∈ tree.entries from he)] at hn
    have ho' := ho
    rw [lookup?, if_neg hold] at ho'
    rw [lookup?, if_neg hother, hw.entries_relocated ho hd hn, find?_map_place _ hne hfree, ho', lookup?,
      if_neg hother]

theorem WellFormed.relocated (hw : tree.WellFormed) (ho : tree.lookup? old = some entry)
    (hd : entry ≠ .directory)
    (hn : tree.lookup? new = none) (ha : tree.lookup? new.dropLast = some .directory) :
    (tree.relocated old new).WellFormed := by
  have kept {other : Location} (h : tree.lookup? other = some .directory) :
      (tree.relocated old new).lookup? other = some .directory := by
    rw [hw.lookup?_relocated ho hd hn, if_neg, if_neg, h]
    · rintro rfl
      exact hd (Option.some.inj (ho.symm.trans h))
    · rintro rfl
      simp [h] at hn
  have hnew : new ≠ [] := by
    rintro rfl
    simp at hn
  have hworking : (tree.relocated old new).working = tree.working := by
    unfold FileTree.relocated
    split <;> rfl
  refine ⟨?_, ?_, ?_, ?_⟩
  · rw [hw.entries_relocated ho hd hn, List.map_map, List.Nodup, List.pairwise_map]
    apply (List.pairwise_map.mp hw.nodup).imp_of_mem
    intro a b ha hb hne
    have hfa := hw.lookup?_of_mem (show (a.1, a.2) ∈ tree.entries from ha)
    have hfb := hw.lookup?_of_mem (show (b.1, b.2) ∈ tree.entries from hb)
    have hane : a.1 ≠ new := by
      intro he
      simp [he, hn] at hfa
    have hbne : b.1 ≠ new := by
      intro he
      simp [he, hn] at hfb
    grind
  · rw [hw.entries_relocated ho hd hn]
    intro e he
    obtain ⟨b, hb, rfl⟩ := List.mem_map.mp he
    have hb := hw.place_ne_nil b hb
    grind
  · rw [hw.entries_relocated ho hd hn]
    intro e he
    obtain ⟨b, hb, rfl⟩ := List.mem_map.mp he
    have hb := hw.above b hb
    split
    · exact kept ha
    · exact kept hb
  · rw [hworking]
    exact kept hw.working

theorem LinkFree.relocated (hl : tree.LinkFree) (hw : tree.WellFormed)
    (ho : tree.lookup? old = some entry)
    (hd : entry ≠ .directory) (hn : tree.lookup? new = none) :
    (tree.relocated old new).LinkFree := by
  intro e he
  rw [hw.entries_relocated ho hd hn] at he
  obtain ⟨b, hb, rfl⟩ := List.mem_map.mp he
  exact hl b hb

theorem WellFormed.files_relocated (hw : tree.WellFormed)
    (ho : tree.lookup? old = some entry)
    (hd : entry ≠ .directory) (hn : tree.lookup? new = none) :
    (tree.relocated old new).files = tree.files := by
  rw [files, hw.entries_relocated ho hd hn, List.filterMap_map]
  rfl

end Relocating

end FileTree

end PhotoNaming
