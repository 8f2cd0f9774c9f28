import PhotoNaming.Proofs.Transfer.Candidates

/-! One file that is copied or moved. Its new place was vacant, and nothing else is there that was not there
before, so other paths stay vacant unless they lead to that place. -/
namespace PhotoNaming

namespace FileTree

variable {tree after : FileTree} {place old : Location} {path source target : Text}
  {data : FileData} {f g : PlannedFile}

/-- A new file gives no new way. -/
theorem inserted_keeps (hn : tree.lookup? place = none) :
    (tree.inserted place (.file data)).Keeps tree where
  directories other h := by
    rw [lookup?_inserted (ne_nil_of_lookup?_none hn) hn] at h
    split at h
    · cases h
    · exact h
  working := rfl

/-- A file has come to a vacant place, and nothing else is there that was not before. -/
structure Receives (tree after : FileTree) (place : Location) : Prop where
  plain : after.Plain
  keeps : tree.Keeps after
  back : after.Keeps tree
  others : ∀ other entry, other ≠ place → after.lookup? other = some entry →
    tree.lookup? other = some entry

theorem Plain.receives_inserted (hp : tree.Plain) (hr : tree.Reaches target place)
    (hn : tree.lookup? place = none) (data : FileData) :
    tree.Receives (tree.inserted place (.file data)) place where
  plain := hp.inserted hr hn (by simp)
  keeps := keeps_inserted tree place (.file data)
  back := inserted_keeps hn
  others other entry hne he := by
    rwa [lookup?_inserted (ne_nil_of_lookup?_none hn) hn, if_neg hne] at he

theorem Plain.receives_relocated (hp : tree.Plain) {moved : Entry} (ho : tree.lookup? old = some moved)
    (hd : moved ≠ .directory) (hr : tree.Reaches target place) (hn : tree.lookup? place = none) :
    tree.Receives (tree.relocated old place) place where
  plain := hp.relocated ho hd hr hn
  keeps := hp.keeps_relocated ho hd hn
  back := by
    refine ⟨fun other h => ?_, (working_relocated tree old place).symm⟩
    rw [hp.lookup?_relocated ho hd hn] at h
    split at h
    · exact absurd (Option.some.inj h) hd
    · split at h
      · cases h
      · exact h
  others other entry hne he := by
    rw [hp.lookup?_relocated ho hd hn, if_neg hne] at he
    split at he
    · cases he
    · exact he

namespace Receives

theorem exists?_eq_false (h : tree.Receives after place) (hp : tree.Plain)
    (hv : tree.exists? path = false) (hr : ¬ tree.Reaches path place) : after.exists? path = false := by
  by_contra hc
  obtain ⟨other, entry, hr', he⟩ := h.plain.exists?_iff.mp (by simpa using hc)
  have hback := hr'.keeps h.plain h.back
  have hne : other ≠ place := by
    rintro rfl
    exact hr hback
  rw [hp.exists?_iff.mpr ⟨other, entry, hback, h.others other entry hne he⟩] at hv
  cases hv

theorem isDirectory_eq_false (h : tree.Receives after place) (hp : tree.Plain)
    (hd : tree.isDirectory path = false) : after.isDirectory path = false := by
  by_contra hc
  obtain ⟨other, hr, he⟩ := h.plain.isDirectory_iff.mp (by simpa using hc)
  rw [hp.isDirectory_iff.mpr ⟨other, hr.keeps h.plain h.back, h.back.directories other he⟩] at hd
  cases hd

theorem apart (h : tree.Receives after place) (ha : Apart tree f g) : Apart after f g :=
  fun c hc c' hc' other hr hr' =>
    ha c hc c' hc' other (hr.keeps h.plain h.back) (hr'.keeps h.plain h.back)

end Receives

/-- What is not there is neither copied nor moved. -/
theorem Plain.carry_missing (hp : tree.Plain) (move : Bool) (hs : tree.exists? source = false) :
    ∃ fault, Transfer.carry move tree source target = ⟨tree, some fault⟩ := by
  have hread : ∀ data, tree.readFile source ≠ .ok data := by
    intro data he
    obtain ⟨place, hr, hd⟩ := hp.readFile_eq_ok_iff.mp he
    rw [hp.exists?_iff.mpr ⟨place, _, hr, hd⟩] at hs
    cases hs
  obtain ⟨fault, hcopy⟩ : ∃ fault, tree.copy source target = ⟨tree, some fault⟩ := by
    cases he : tree.readFile source with
    | error fault => exact ⟨fault, by rw [copy, he]⟩
    | ok data => exact absurd he (hread data)
  refine ⟨fault, ?_⟩
  unfold Transfer.carry
  split
  · have hdir : tree.isDirectory source = false := by
      by_contra hc
      obtain ⟨place, hr⟩ := hp.isDirectory_iff.mp (by simpa using hc)
      rw [hp.exists?_iff.mpr ⟨place, _, hr⟩] at hs
      cases hs
    obtain ⟨refusal, hren⟩ : ∃ refusal, tree.rename source target = .error refusal := by
      rcases hp.free_of_not_exists? hs with ⟨place, hr, hn⟩ | ⟨refusal, he⟩
      · rw [rename, hr.locate hp, destination_of_none hn]
        cases tree.locate false target with
        | error refusal => exact ⟨refusal, rfl⟩
        | ok d => exact ⟨.notFound, rfl⟩
      · exact ⟨refusal, by rw [rename, he]; rfl⟩
    have hlink : tree.linkTarget? source = none := by
      rcases hp.free_of_not_exists? hs with ⟨place, hr, hn⟩ | ⟨refusal, he⟩
      · rw [linkTarget?, hr.locate hp, destination_of_none hn]
      · rw [linkTarget?, he]
    simp only [FileTree.move, hren, hlink, hdir, hcopy, Change.andThen, Bool.false_eq_true, if_false]
  · exact hcopy

/-- Copying or moving anything but a directory to a vacant path puts it there, or there is a fault. -/
theorem Plain.carry_cases (hp : tree.Plain) (move : Bool) (hs : tree.isDirectory source = false)
    (ht : tree.exists? target = false) :
    (∃ after place, tree.Reaches target place ∧ tree.Receives after place ∧
        Transfer.carry move tree source target = ⟨after, none⟩) ∨
      ∃ fault, Transfer.carry move tree source target = ⟨tree, some fault⟩ := by
  cases he : tree.exists? source with
  | false => exact .inr (hp.carry_missing move he)
  | true =>
    obtain ⟨old, entry, hr, ho⟩ := hp.exists?_iff.mp he
    have hd : entry ≠ .directory := by
      rintro rfl
      rw [hp.isDirectory_iff.mpr ⟨old, hr, ho⟩] at hs
      cases hs
    unfold Transfer.carry
    cases move with
    | true =>
      rcases hp.move_cases hr ho hd ht with ⟨place, hreach, hn, hc⟩ | hc
      · exact .inl ⟨_, place, hreach, hp.receives_relocated ho hd hreach hn, hc⟩
      · exact .inr hc
    | false =>
      cases hread : tree.readFile source with
      | error fault => exact .inr ⟨fault, by simp [copy, hread]⟩
      | ok data =>
        rcases hp.copy_cases hread ht with ⟨place, hreach, hn, hc⟩ | hc
        · exact .inl ⟨_, place, hreach, hp.receives_inserted hreach hn data, hc⟩
        · exact .inr hc

end FileTree

end PhotoNaming
