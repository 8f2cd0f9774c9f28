import PhotoNaming.Proofs.FileTree.Reach

/-! What changes of a tree without links come to: one entry more, or one entry at another place, or
a fault and nothing changed. -/
namespace PhotoNaming.FileTree

variable {tree after : FileTree} {path source target : Text} {place old : Location}
  {data : FileData} {entry : Entry}

theorem ne_nil_of_lookup?_none (hn : tree.lookup? place = none) : place ≠ [] := by
  rintro rfl
  simp at hn

/-- A directory or file may stand where a path comes out and nothing is yet. -/
theorem Plain.inserted (hp : tree.Plain) (hr : tree.Reaches path place)
    (hn : tree.lookup? place = none) (he : ∀ target, entry ≠ .link target) :
    (tree.inserted place entry).Plain where
  toWellFormed := hp.toWellFormed.inserted (ne_nil_of_lookup?_none hn) hn (hr.above hp) entry
  linkFree := hp.linkFree.inserted place he

/-- A file is read in a tree with more entries as before. -/
theorem Plain.readFile_extended (hp : tree.Plain) {more : List (Location × Entry)}
    (hplain : (tree.extended more).Plain) (h : tree.isFile path = true) :
    (tree.extended more).readFile path = tree.readFile path := by
  obtain ⟨place, data, hr, he⟩ := hp.isFile_iff.mp h
  rw [hp.readFile_eq_ok_iff.mpr ⟨place, hr, he⟩]
  exact hplain.readFile_eq_ok_iff.mpr
    ⟨place, hr.keeps hp (keeps_extended tree more), lookup?_extended_of_some more he⟩

theorem Plain.isFile_extended (hp : tree.Plain) {more : List (Location × Entry)}
    (hplain : (tree.extended more).Plain) (h : tree.isFile path = true) :
    (tree.extended more).isFile path = true := by
  obtain ⟨place, data, hr, he⟩ := hp.isFile_iff.mp h
  exact hplain.isFile_iff.mpr
    ⟨place, data, hr.keeps hp (keeps_extended tree more), lookup?_extended_of_some more he⟩

theorem Plain.relocated (hp : tree.Plain) (ho : tree.lookup? old = some entry) (hd : entry ≠ .directory)
    (hr : tree.Reaches path place) (hn : tree.lookup? place = none) :
    (tree.relocated old place).Plain where
  toWellFormed := hp.toWellFormed.relocated ho hd hn (hr.above hp)
  linkFree := hp.linkFree.relocated hp.toWellFormed ho hd hn

theorem working_relocated (tree : FileTree) (old place : Location) :
    (tree.relocated old place).working = tree.working := by
  unfold relocated
  split <;> rfl

theorem Plain.keeps_relocated (hp : tree.Plain) (ho : tree.lookup? old = some entry)
    (hd : entry ≠ .directory) (hn : tree.lookup? place = none) :
    tree.Keeps (tree.relocated old place) where
  directories other h := by
    rw [hp.lookup?_relocated ho hd hn, if_neg, if_neg, h]
    · rintro rfl
      exact hd (Option.some.inj (ho.symm.trans h))
    · rintro rfl
      simp [h] at hn
  working := working_relocated tree old place

theorem Plain.makeDirectory_cases (hp : tree.Plain) (path : Text) :
    (∃ place, byteCount path ≤ maxPathBytes ∧ tree.Reaches (Path.bare path) place ∧
        tree.lookup? place = none ∧
        tree.makeDirectory path = ⟨tree.inserted place .directory, none⟩) ∨
      ∃ fault, tree.makeDirectory path = ⟨tree, some fault⟩ := by
  unfold makeDirectory
  split
  · exact .inr ⟨_, rfl⟩
  · split
    · rename_i hs place hl
      obtain ⟨q, hr, hd⟩ := hp.reaches_of_locate hl
      unfold destination at hd
      split at hd
      · cases hd
      · rename_i hn
        rw [Destination.free.inj hd]
        exact .inl ⟨q, by omega, hr, hn, rfl⟩
    · exact .inr ⟨_, rfl⟩
    · exact .inr ⟨_, rfl⟩

theorem Plain.writeFile_cases (hp : tree.Plain) (h : tree.exists? target = false)
    (data : FileData) :
    (∃ place, tree.Reaches target place ∧ tree.lookup? place = none ∧
        tree.writeFile target data = ⟨tree.inserted place (.file data), none⟩) ∨
      ∃ fault, tree.writeFile target data = ⟨tree, some fault⟩ := by
  rcases hp.free_of_not_exists? h with ⟨place, hr, hn⟩ | ⟨refusal, he⟩
  · refine .inl ⟨place, hr, hn, ?_⟩
    rw [writeFile, hr.locate hp, destination_of_none hn]
  · exact .inr ⟨_, by rw [writeFile, he]⟩

theorem Plain.copy_cases (hp : tree.Plain) (hd : tree.readFile source = .ok data)
    (h : tree.exists? target = false) :
    (∃ place, tree.Reaches target place ∧ tree.lookup? place = none ∧
        tree.copy source target = ⟨tree.inserted place (.file data), none⟩) ∨
      ∃ fault, tree.copy source target = ⟨tree, some fault⟩ := by
  rw [copy, hd]
  exact hp.writeFile_cases h data

theorem Plain.move_cases (hp : tree.Plain) (hs : tree.Reaches source old)
    (ho : tree.lookup? old = some entry) (hd : entry ≠ .directory) (h : tree.exists? target = false) :
    (∃ place, tree.Reaches target place ∧ tree.lookup? place = none ∧
        tree.move source target = ⟨tree.relocated old place, none⟩) ∨
      ∃ fault, tree.move source target = ⟨tree, some fault⟩ := by
  have hsource : tree.locate false source = .ok (.found old entry) := by
    rw [hs.locate hp, destination_of_lookup? ho]
  rcases hp.free_of_not_exists? h with ⟨place, hr, hn⟩ | ⟨refusal, he⟩
  · refine .inl ⟨place, hr, hn, ?_⟩
    have htarget : tree.locate false target = .ok (.free place) := by
      rw [hr.locate hp, destination_of_none hn]
    have hren : tree.rename source target = .ok (tree.relocated old place) := by
      simp only [rename, hsource, htarget]
      cases entry <;> first | rfl | exact absurd rfl hd
    rw [move, hren]
  · have hren : tree.rename source target = .error refusal := by
      simp only [rename, hsource, he]
      rfl
    have hlink : tree.linkTarget? source = none := by
      rw [linkTarget?, hsource]
      cases entry <;> first | rfl | exact absurd ho (hp.linkFree.lookup?_ne_link _ _)
    have hdir : tree.isDirectory source = false := by
      rw [Bool.eq_false_iff, Ne, hp.isDirectory_iff]
      rintro ⟨place, hr, hl⟩
      rw [hs.unique hr, hl] at ho
      exact hd (Option.some.inj ho).symm
    obtain ⟨fault, hcopy⟩ : ∃ fault, tree.copy source target = ⟨tree, some fault⟩ := by
      cases hread : tree.readFile source with
      | error fault => exact ⟨fault, by rw [copy, hread]⟩
      | ok data => exact ⟨FileFault.onPath target refusal, by simp only [copy, hread, writeFile, he]⟩
    refine .inr ⟨fault, ?_⟩
    rw [move, hren]
    simp only [hlink, hdir, hcopy]
    rfl

/-- More directories, and all else as it was. -/
structure Grows (tree after : FileTree) : Prop where
  plain : after.Plain
  working : after.working = tree.working
  kept : ∀ place entry, tree.lookup? place = some entry → after.lookup? place = some entry
  back : ∀ place entry, entry ≠ .directory → after.lookup? place = some entry → tree.lookup? place = some entry
  files : after.files = tree.files

namespace Grows

theorem refl (hp : tree.Plain) : tree.Grows tree := ⟨hp, rfl, fun _ _ h => h, fun _ _ _ h => h, rfl⟩

theorem trans {a b c : FileTree} (h : a.Grows b) (h' : b.Grows c) : a.Grows c where
  plain := h'.plain
  working := h'.working.trans h.working
  kept place entry hp := h'.kept place entry (h.kept place entry hp)
  back place entry hd hp := h.back place entry hd (h'.back place entry hd hp)
  files := h'.files.trans h.files

theorem keeps (h : tree.Grows after) : tree.Keeps after :=
  ⟨fun place hp => h.kept place .directory hp, h.working⟩

theorem makeDirectory (hp : tree.Plain) (path : Text) :
    tree.Grows (tree.makeDirectory path).tree := by
  rcases hp.makeDirectory_cases path with ⟨place, _, hr, hn, he⟩ | ⟨fault, he⟩
  · rw [he]
    refine ⟨hp.inserted hr hn (by simp), rfl, fun _ _ => lookup?_inserted_of_some, ?_,
      files_inserted_directory tree place⟩
    intro other entry hd h
    rw [lookup?_inserted (ne_nil_of_lookup?_none hn) hn] at h
    split at h
    · exact absurd (Option.some.inj h).symm hd
    · exact h
  · rw [he]
    exact refl hp

end Grows

/-- What holds between a tree and the one after, whichever directories are made by paths such as `may`
allows. -/
structure Making (may : Text → Prop) (R : FileTree → FileTree → Prop) : Prop where
  refl {t : FileTree} : t.Plain → R t t
  trans {a b c : FileTree} : R a b → R b c → R a c
  plain {a b : FileTree} : R a b → b.Plain
  single {t : FileTree} {path : Text} : t.Plain → may path → R t (t.makeDirectory path).tree
  above {path h : Text} : may path → h ∈ Path.above path → may h

namespace Making

variable {may : Text → Prop} {R : FileTree → FileTree → Prop}

theorem andThen (m : Making may R) {change : Change} {next : FileTree → Change}
    (h : R tree change.tree) (hn : ∀ {t : FileTree}, t.Plain → R t (next t).tree) :
    R tree (change.andThen next).tree := by
  unfold Change.andThen
  split
  · exact h
  · exact m.trans h (hn (m.plain h))

theorem makeAbove (m : Making may R) (hp : tree.Plain) (h : may path) :
    R tree (tree.makeAbove path).tree := by
  unfold FileTree.makeAbove
  split
  · exact m.refl hp
  · split
    · exact m.refl hp
    · exact m.single hp h

theorem makeAllAbove (m : Making may R) (hp : tree.Plain) {paths : List Text}
    (h : ∀ path ∈ paths, may path) : R tree (tree.makeAllAbove paths).tree := by
  induction paths generalizing tree with
  | nil => exact m.refl hp
  | cons path paths ih =>
    exact m.andThen (m.makeAbove hp (h path (by simp))) fun ht =>
      ih ht fun other ho => h other (by simp [ho])

theorem makeDirectories (m : Making may R) (hp : tree.Plain) (reuse : Bool) (h : may path) :
    R tree (tree.makeDirectories reuse path).tree := by
  apply m.andThen (m.makeAllAbove hp fun above ha => m.above h ha)
  intro t ht
  split
  · exact m.refl ht
  · exact m.single ht h

end Making

theorem Grows.making : Making (fun _ => True) Grows where
  refl := .refl
  trans := .trans
  plain := Grows.plain
  single hp _ := Grows.makeDirectory hp _
  above _ _ := trivial

end PhotoNaming.FileTree
