import PhotoNaming.Proofs.FileTree.Effect
import PhotoNaming.Proofs.Path.Above

/-! Paths below a directory. Names joined to the path of a directory lead on from it, whatever that
path looks like, and making a directory for them either adds just that or changes nothing. -/
namespace PhotoNaming.FileTree

open PhotoNaming.Path (IsName slashed)

/-- A path leads to a directory. -/
structure Opens (tree : FileTree) (path : Text) (place : Location) : Prop where
  reaches : tree.Reaches path place
  directory : tree.lookup? place = some .directory

variable {tree after : FileTree} {path directory : Text} {base place : Location}
  {names : List Text}

/-- What a way comes out at is there. -/
theorem WellFormed.lookup?_of_walk (hw : tree.WellFormed) {start : Location}
    (hs : tree.lookup? start = some .directory) {todo : List Text} {entry : Entry}
    (h : tree.walk start todo = .ok (.found place entry)) : tree.lookup? place = some entry := by
  obtain ⟨q, _, hq⟩ := hw.walk_ok hs h
  have hd := hq tree (.refl tree)
  rw [h, Except.ok.injEq, destination] at hd
  split at hd
  · rename_i hf
    obtain ⟨rfl, rfl⟩ := Destination.found.inj hd
    exact hf
  · cases hd

theorem proceeds_of_isName (h : ∀ n ∈ names, IsName n) : ∀ n ∈ names, Proceeds n :=
  fun n hn => ⟨(h n hn).ne_nil, (h n hn).ne_dot, (h n hn).ne_dots⟩

/-- Where names lead from a directory, if they lead anywhere. -/
theorem Reaches.eq_of_walk (hr : tree.Reaches path place) (hb : tree.lookup? base = some .directory)
    (hn : ∀ n ∈ names, IsName n)
    (hw : tree.walk (tree.start path) (Path.parts path) = tree.walk base names) :
    (∀ n ∈ names, byteCount n ≤ maxNameBytes) ∧ place = base ++ names := by
  have h := hr.walk
  rw [hw] at h
  obtain ⟨hs, hd⟩ := walk_names (proceeds_of_isName hn) hb h
  exact ⟨hs, destination_inj hd⟩

/-- A path that goes on behind some parts comes out below the directory that these lead to. -/
theorem Reaches.exists_base (hr : tree.Reaches path place) (hp : tree.Plain) {start : Location}
    {front back : List Text}
    (hw : tree.walk (tree.start path) (Path.parts path) = tree.walk start (front ++ back))
    (hb : back ≠ []) (hs : tree.lookup? start = some .directory) :
    ∃ base, tree.lookup? base = some .directory ∧ tree.walk start front = .ok (.found base .directory) := by
  have h := hr.walk
  rw [hw] at h
  obtain ⟨base, hbase⟩ := exists_walk_of_append h (.inl hb)
  exact ⟨base, hp.lookup?_of_walk hs hbase, hbase⟩

theorem WellFormed.reaches_of_lookup? (hw : tree.WellFormed) (hi : IsPath path)
    (hb : tree.lookup? base = some .directory) (hn : ∀ n ∈ names, IsName n)
    (hs : ∀ n ∈ names, byteCount n ≤ maxNameBytes)
    (hwalk : tree.walk (tree.start path) (Path.parts path) = tree.walk base names) {entry : Entry}
    (he : tree.lookup? (base ++ names) = some entry) : tree.Reaches path (base ++ names) where
  isPath := hi
  walk := by rw [hwalk, hw.walk_names_of_lookup? (proceeds_of_isName hn) hs hb he]

private theorem walk_slack (tree : FileTree) (place : Location) {slack : List Text}
    (hs : ∀ part ∈ slack, part = [] ∨ part = ['.']) (rest : List Text) :
    tree.walk place (slack ++ rest) = tree.walk place rest := by
  induction slack with
  | nil => rfl
  | cons part slack ih =>
    rw [List.cons_append, walk_stay (hs part (by simp))]
    exact ih fun other ho => hs other (List.mem_cons_of_mem _ ho)

/-- The normal form of a path leads where its parts lead. -/
theorem walk_normal (tree : FileTree) (path : Text) :
    tree.walk (tree.start (Path.normal path)) (Path.parts (Path.normal path)) =
      tree.walk (tree.start path) (Path.normalParts path) := by
  obtain ⟨slack, hs, hp⟩ := Path.exists_parts_normal path
  rw [start_normal, hp, walk_slack tree _ hs]

/-- The normal form of a path made of a directory's and of names leads on from the normal form of the
directory's, if that leads anywhere. -/
theorem walk_normal_join (tree : FileTree) (directory : Text) (hn : ∀ n ∈ names, IsName n)
    {name : Text} (hname : IsName name) :
    tree.walk (tree.start (Path.normal (Path.join (Path.join directory (slashed names)) name)))
        (Path.parts (Path.normal (Path.join (Path.join directory (slashed names)) name))) =
      tree.walk (tree.start directory) (Path.normalParts directory ++ (names ++ [name])) := by
  have hparts := Path.normalParts_join_names directory hn hname.isAbsolute
    (by simp [Path.components_name hname, hname])
  rw [walk_normal, Path.join_join directory hn hname.isAbsolute,
    start_join tree directory (Path.isAbsolute_slashed_append hn hname.isAbsolute), hparts,
    Path.components_name hname, List.append_assoc]

namespace Opens

theorem keeps (h : tree.Opens path place) (hp : tree.Plain) (hk : tree.Keeps after) :
    after.Opens path place :=
  ⟨h.reaches.keeps hp hk, hk.directories place h.directory⟩

theorem walk_eq (h : tree.Opens path place) :
    tree.walk (tree.start path) (Path.parts path) = .ok (.found place .directory) := by
  rw [h.reaches.walk, destination_of_lookup? h.directory]

/-- The first parts of a path below a directory lead to that directory. -/
theorem exists_front (h : tree.Opens directory base) :
    ∃ front, tree.walk (tree.start directory) front = .ok (.found base .directory) ∧
      ∀ next, Path.isAbsolute next = false →
        Path.parts (Path.join directory next) = front ++ Path.parts next := by
  obtain ⟨front, hf | hf, hj⟩ := Path.exists_parts_join h.reaches.isPath.ne_nil
  · exact ⟨front, hf ▸ h.walk_eq, hj⟩
  · have hw := h.walk_eq
    rw [hf] at hw
    obtain ⟨q, hq⟩ := exists_walk_of_append hw (.inr ⟨base, rfl⟩)
    rw [walk_append hq, walk_stay (.inl rfl), walk] at hw
    exact ⟨front, (Destination.found.inj (Except.ok.inj hw)).1 ▸ hq, hj⟩

theorem walk_join (h : tree.Opens directory base) {next : Text}
    (hn : Path.isAbsolute next = false) :
    tree.walk (tree.start (Path.join directory next)) (Path.parts (Path.join directory next)) =
      tree.walk base (Path.parts next) := by
  obtain ⟨front, hf, hj⟩ := h.exists_front
  rw [start_join tree directory hn, hj next hn, walk_append hf]

/-- The normal form of a directory's path leads to it. -/
theorem walk_normalParts (h : tree.Opens directory base) :
    tree.walk (tree.start directory) (Path.normalParts directory) =
      .ok (.found base .directory) := by
  refine walk_foldl_push (q := tree.start directory) ?_ (by simp) rfl h.walk_eq
  intro ha
  rw [start, ha]
  rfl

theorem normal (h : tree.Opens path place) : tree.Opens (Path.normal path) place where
  reaches :=
    ⟨h.reaches.isPath.normal, by
      rw [walk_normal, h.walk_normalParts, destination_of_lookup? h.directory]⟩
  directory := h.directory

/-- A path made of a directory's and of names leads to a directory only at the place of these names. -/
theorem join_slashed_iff (h : tree.Opens directory base) (hw : tree.WellFormed)
    (hn : ∀ n ∈ names, IsName n) :
    tree.Opens (Path.join directory (slashed names)) place ↔
      IsPath (Path.join directory (slashed names)) ∧ (∀ n ∈ names, byteCount n ≤ maxNameBytes) ∧
        place = base ++ names ∧ tree.lookup? (base ++ names) = some .directory := by
  have hwalk := h.walk_join (Path.isAbsolute_slashed hn)
  have hparts := Path.parts_slashed (fun n hm => (hn n hm).no_slash) []
  rw [List.append_nil] at hparts
  rw [hparts] at hwalk
  constructor
  · intro ho
    have hd := ho.walk_eq
    rw [hwalk] at hd
    obtain ⟨q, hq⟩ := exists_walk_of_append hd (.inr ⟨place, rfl⟩)
    rw [walk_append hq, Path.parts_name (by simp), walk_stay (.inl rfl), walk] at hd
    obtain ⟨hs, he⟩ := walk_names (proceeds_of_isName hn) h.directory hq
    have hplace := (Destination.found.inj (Except.ok.inj hd)).1
    have hentry : tree.destination (base ++ names) = tree.destination place := by
      rw [← he, ← hplace, destination_of_lookup? (hplace ▸ ho.directory)]
    have hplace := destination_inj hentry
    exact ⟨ho.reaches.isPath, hs, hplace.symm, hplace ▸ ho.directory⟩
  · rintro ⟨hi, hs, rfl, hd⟩
    have hq := hw.walk_names_of_lookup? (proceeds_of_isName hn) hs h.directory hd
    rw [destination_of_lookup? hd] at hq
    refine ⟨⟨hi, ?_⟩, hd⟩
    rw [hwalk, walk_append hq, Path.parts_name (by simp), walk_stay (.inl rfl), walk,
      destination_of_lookup? hd]

end Opens

end PhotoNaming.FileTree
