import PhotoNaming.Proofs.FileTree.Walk
import PhotoNaming.Proofs.Path.Normal

/-! Where paths come out in trees without links: at one place, whether something stands there or not.
What a tree holds at that place decides what the path leads to. -/
namespace PhotoNaming

theorem byteCount_append (a b : Text) : byteCount (a ++ b) = byteCount a + byteCount b := by
  induction a with
  | nil => rw [List.nil_append, byteCount, Nat.zero_add]
  | cons c a ih => rw [List.cons_append, byteCount, byteCount, ih, Nat.add_assoc]

theorem byteCount_le_of_sublist {a b : Text} (h : a.Sublist b) : byteCount a ≤ byteCount b := by
  induction h with
  | slnil => exact Nat.le_refl _
  | cons c h ih =>
    rw [byteCount]
    omega
  | cons_cons c h ih =>
    rw [byteCount, byteCount]
    omega

namespace FileTree

/-- A text that the file system takes for a path. -/
structure IsPath (path : Text) : Prop where
  no_null : '\x00' ∉ path
  ne_nil : path ≠ []
  short : byteCount path ≤ maxPathBytes

instance (path : Text) : Decidable (IsPath path) :=
  decidable_of_iff ('\x00' ∉ path ∧ path ≠ [] ∧ byteCount path ≤ maxPathBytes)
    ⟨fun h => ⟨h.1, h.2.1, h.2.2⟩, fun h => ⟨h.no_null, h.ne_nil, h.short⟩⟩

/-- The normal form of a path is not longer than the path. -/
theorem IsPath.normal {path : Text} (h : IsPath path) : IsPath (Path.normal path) := by
  rcases Path.normal_eq path with ⟨he, _⟩ | ⟨he, _⟩
  · rw [he]
    exact ⟨by decide, by decide, by decide⟩
  · have hs := Path.root_append_sublist path
    rw [← he] at hs
    refine ⟨fun hm => h.no_null (hs.subset hm), ?_, Nat.le_trans (byteCount_le_of_sublist hs) h.short⟩
    rw [Path.normal]
    split
    · simp
    · assumption

/-- Where the way of a path begins. -/
def start (tree : FileTree) (path : Text) : Location :=
  if Path.isAbsolute path then [] else tree.working

theorem start_extended (tree : FileTree) (more : List (Location × Entry)) (path : Text) :
    (tree.extended more).start path = tree.start path := rfl

theorem start_normal (tree : FileTree) (path : Text) : tree.start (Path.normal path) = tree.start path := by
  rw [start, Path.isAbsolute_normal, start]

theorem start_join (tree : FileTree) (directory : Text) {next : Text}
    (hn : Path.isAbsolute next = false) :
    tree.start (Path.join directory next) = tree.start directory := by
  rw [start, start, Path.isAbsolute_join directory hn]

/-- A path comes out at a place, where there may be an entry or not. -/
structure Reaches (tree : FileTree) (path : Text) (place : Location) : Prop where
  isPath : IsPath path
  walk : tree.walk (tree.start path) (Path.parts path) = .ok (tree.destination place)

/-- The place of the entry that a path leads to. -/
def place? (tree : FileTree) (path : Text) : Option Location :=
  (tree.entryAt path).toOption.map (·.1)

variable {tree after : FileTree} {path : Text} {place : Location}

theorem WellFormed.lookup?_start (hw : tree.WellFormed) (path : Text) :
    tree.lookup? (tree.start path) = some .directory := by
  unfold start
  split
  · rfl
  · exact hw.working

theorem Keeps.start_eq (h : tree.Keeps after) (path : Text) : after.start path = tree.start path := by
  rw [start, start, h.working]

theorem IsPath.locate_eq (h : IsPath path) (follow : Bool) :
    tree.locate follow path =
      tree.lead follow maxLinks (tree.start path) (Path.parts path) := by
  have hc : ¬ path.contains '\x00' := by simpa using h.no_null
  rw [locate, if_neg hc, if_neg h.ne_nil, if_neg (by have := h.short; omega), start]

theorem LinkFree.locate_eq (hl : tree.LinkFree) (h : IsPath path) (follow : Bool) :
    tree.locate follow path = tree.walk (tree.start path) (Path.parts path) := by
  rw [h.locate_eq, hl.lead_eq_walk]

theorem LinkFree.locate_follow (hl : tree.LinkFree) (path : Text) (follow follow' : Bool) :
    tree.locate follow path = tree.locate follow' path := by
  simp only [locate, hl.lead_eq_walk]

theorem isPath_of_locate {follow : Bool} {d : Destination} (h : tree.locate follow path = .ok d) :
    IsPath path := by
  unfold locate at h
  split at h
  · cases h
  · rename_i hc
    split at h
    · cases h
    · rename_i hn
      split at h
      · cases h
      · exact ⟨by simpa using hc, hn, by omega⟩

theorem locate_of_entryAt {entry : Entry} (h : tree.entryAt path = .ok (place, entry)) :
    tree.locate true path = .ok (.found place entry) := by
  unfold entryAt at h
  split at h
  · rename_i hl
    cases h
    exact hl
  · cases h
  · cases h

theorem isPath_of_entryAt {entry : Entry} (h : tree.entryAt path = .ok (place, entry)) : IsPath path :=
  isPath_of_locate (locate_of_entryAt h)

namespace Plain

theorem reaches_of_walk (hp : tree.Plain) (hi : IsPath path) {d : Destination}
    (h : tree.walk (tree.start path) (Path.parts path) = .ok d) :
    ∃ place, tree.Reaches path place ∧ d = tree.destination place := by
  obtain ⟨place, _, hq⟩ := hp.walk_ok (hp.lookup?_start path) h
  have hq := hq tree (.refl tree)
  refine ⟨place, ⟨hi, hq⟩, ?_⟩
  rw [h] at hq
  exact Except.ok.inj hq

theorem reaches_of_locate (hp : tree.Plain) {follow : Bool} {d : Destination}
    (h : tree.locate follow path = .ok d) :
    ∃ place, tree.Reaches path place ∧ d = tree.destination place := by
  have hi := isPath_of_locate h
  rw [hp.linkFree.locate_eq hi] at h
  exact hp.reaches_of_walk hi h

end Plain

namespace Reaches

theorem locate (h : tree.Reaches path place) (hp : tree.Plain) (follow : Bool) :
    tree.locate follow path = .ok (tree.destination place) := by
  rw [hp.linkFree.locate_eq h.isPath, h.walk]

theorem unique {other : Location} (h : tree.Reaches path place) (h' : tree.Reaches path other) :
    place = other := by
  have he := h.walk
  rw [h'.walk] at he
  exact (destination_inj (Except.ok.inj he)).symm

/-- The place above the one where a path comes out is a directory. -/
theorem above (h : tree.Reaches path place) (hp : tree.Plain) :
    tree.lookup? place.dropLast = some .directory := by
  obtain ⟨q, ha, hq⟩ := hp.walk_ok (hp.lookup?_start path) h.walk
  have hself := hq tree (.refl tree)
  rw [h.walk] at hself
  rw [destination_inj (Except.ok.inj hself)]
  exact ha

/-- A path keeps its place as long as the directories are kept. -/
theorem keeps (h : tree.Reaches path place) (hp : tree.Plain) (hk : tree.Keeps after) :
    after.Reaches path place := by
  obtain ⟨q, _, hq⟩ := hp.walk_ok (hp.lookup?_start path) h.walk
  have hself := hq tree (.refl tree)
  rw [h.walk] at hself
  rw [destination_inj (Except.ok.inj hself)]
  refine ⟨h.isPath, ?_⟩
  rw [hk.start_eq, hq after hk]

end Reaches

theorem isDirectory_iff_entryAt :
    tree.isDirectory path = true ↔ ∃ place, tree.entryAt path = .ok (place, .directory) := by
  unfold isDirectory
  split
  · rename_i place he
    exact ⟨fun _ => ⟨place, he⟩, fun _ => rfl⟩
  · rename_i hne
    refine ⟨by simp, ?_⟩
    rintro ⟨place, he⟩
    exact absurd he (hne place)

theorem readFile_eq_ok_iff_entryAt {data : FileData} :
    tree.readFile path = .ok data ↔ ∃ place, tree.entryAt path = .ok (place, .file data) := by
  unfold readFile
  split
  · rename_i place found he
    simp [he]
  · rename_i he
    simp [he]
  · rename_i place entry hne _ he
    refine ⟨by simp, ?_⟩
    rintro ⟨place, hp⟩
    exact absurd (Except.ok.inj (he.symm.trans hp)) (hne place data)
  · rename_i he
    simp [he]

theorem isDirectory_of_isFile (h : tree.isFile path = true) : tree.isDirectory path = false := by
  unfold isFile at h
  split at h
  · rename_i he
    rw [isDirectory, he]
  · cases h

namespace Plain

variable {entry : Entry}

theorem entryAt_eq_ok_iff (hp : tree.Plain) :
    tree.entryAt path = .ok (place, entry) ↔
      tree.Reaches path place ∧ tree.lookup? place = some entry := by
  constructor
  · intro h
    obtain ⟨q, hr, he⟩ := hp.reaches_of_locate (locate_of_entryAt h)
    unfold destination at he
    split at he
    · rename_i hf
      obtain ⟨rfl, rfl⟩ := Destination.found.inj he
      exact ⟨hr, hf⟩
    · cases he
  · rintro ⟨hr, he⟩
    rw [entryAt, hr.locate hp, destination_of_lookup? he]

theorem place?_eq_some_iff (hp : tree.Plain) :
    tree.place? path = some place ↔
      ∃ entry, tree.Reaches path place ∧ tree.lookup? place = some entry := by
  rw [place?]
  cases h : tree.entryAt path with
  | error refusal =>
    simp only [Except.toOption, Option.map_none, reduceCtorEq, false_iff]
    rintro ⟨entry, hr⟩
    rw [hp.entryAt_eq_ok_iff.mpr hr] at h
    cases h
  | ok found =>
    obtain ⟨q, e⟩ := found
    simp only [Except.toOption, Option.map_some, Option.some.injEq]
    have hq := hp.entryAt_eq_ok_iff.mp h
    constructor
    · rintro rfl
      exact ⟨e, hq⟩
    · rintro ⟨entry, hr, _⟩
      exact hq.1.unique hr

theorem exists?_iff (hp : tree.Plain) :
    tree.exists? path = true ↔
      ∃ place entry, tree.Reaches path place ∧ tree.lookup? place = some entry := by
  rw [exists?]
  cases h : tree.entryAt path with
  | error refusal =>
    simp only [Except.toOption, Option.isSome_none, Bool.false_eq_true, false_iff]
    rintro ⟨place, entry, hr⟩
    rw [hp.entryAt_eq_ok_iff.mpr hr] at h
    cases h
  | ok found =>
    simp only [Except.toOption, Option.isSome_some, true_iff]
    exact ⟨found.1, found.2, hp.entryAt_eq_ok_iff.mp h⟩

theorem isDirectory_iff (hp : tree.Plain) :
    tree.isDirectory path = true ↔
      ∃ place, tree.Reaches path place ∧ tree.lookup? place = some .directory := by
  rw [isDirectory_iff_entryAt]
  exact exists_congr fun place => hp.entryAt_eq_ok_iff

theorem isFile_iff (hp : tree.Plain) :
    tree.isFile path = true ↔
      ∃ place data, tree.Reaches path place ∧ tree.lookup? place = some (.file data) := by
  unfold isFile
  split
  · rename_i place data h
    exact ⟨fun _ => ⟨place, data, hp.entryAt_eq_ok_iff.mp h⟩, fun _ => rfl⟩
  · rename_i h
    refine ⟨by simp, ?_⟩
    rintro ⟨place, data, hr⟩
    exact absurd (hp.entryAt_eq_ok_iff.mpr hr) (h place data)

theorem readFile_eq_ok_iff (hp : tree.Plain) {data : FileData} :
    tree.readFile path = .ok data ↔
      ∃ place, tree.Reaches path place ∧ tree.lookup? place = some (.file data) := by
  rw [readFile_eq_ok_iff_entryAt]
  exact exists_congr fun place => hp.entryAt_eq_ok_iff

/-- A path that leads to no entry comes out at a free place of a directory, or nowhere at all. -/
theorem free_of_not_exists? (hp : tree.Plain) (h : tree.exists? path = false) :
    (∃ place, tree.Reaches path place ∧ tree.lookup? place = none) ∨
      ∃ refusal, ∀ follow, tree.locate follow path = .error refusal := by
  cases hl : tree.locate true path with
  | error refusal =>
    exact .inr ⟨refusal, fun follow => by rw [hp.linkFree.locate_follow path follow true, hl]⟩
  | ok d =>
    obtain ⟨place, hr, _⟩ := hp.reaches_of_locate hl
    refine .inl ⟨place, hr, ?_⟩
    cases he : tree.lookup? place with
    | none => rfl
    | some entry =>
      rw [hp.exists?_iff.mpr ⟨place, entry, hr, he⟩] at h
      cases h

end Plain

end FileTree

end PhotoNaming
