import PhotoNaming.Proofs.FileTree.Sparing
import PhotoNaming.Proofs.Transfer.Moving
import PhotoNaming.Proofs.Transfer.Receiving

/-! Where the files of a run are in the end. A file that is new at its place came there by a path that the run
gave it, and as long as no photo is moved twice there is a file at each of these paths. -/
namespace PhotoNaming

/-- Files that are new at their places stand where the new paths of some pairs lead. -/
structure Written (tree after : FileTree) (done : List (Text × Text)) : Prop where
  plain : after.Plain
  keeps : tree.Keeps after
  fresh : ∀ place data, after.lookup? place = some (.file data) →
    tree.lookup? place = some (.file data) ∨ ∃ p ∈ done, after.Reaches p.2 place

namespace Written

variable {tree after last : FileTree} {done rest : List (Text × Text)}

theorem of_grows (h : tree.Grows after) : Written tree after [] :=
  ⟨h.plain, h.keeps, fun place _ he => .inl (h.back place _ nofun he)⟩

theorem of_receives {source target : Text} {place : Location} (hp : tree.Plain)
    (hr : tree.Reaches target place) (h : tree.Receives after place) :
    Written tree after [(source, target)] := by
  refine ⟨h.plain, h.keeps, fun other data he => ?_⟩
  by_cases ho : other = place
  · exact .inr ⟨_, List.mem_singleton_self _, ho ▸ hr.keeps hp h.keeps⟩
  · exact .inl (h.others other _ ho he)

theorem trans (h : Written tree after done) (h' : Written after last rest) :
    Written tree last (done ++ rest) := by
  refine ⟨h'.plain, h.keeps.trans h'.keeps, fun place data he => ?_⟩
  rcases h'.fresh place data he with he | ⟨p, hm, hr⟩
  · rcases h.fresh place data he with he | ⟨p, hm, hr⟩
    · exact .inl he
    · exact .inr ⟨p, List.mem_append_left _ hm, hr.keeps h.plain h'.keeps⟩
  · exact .inr ⟨p, List.mem_append_right _ hm, hr⟩

end Written

namespace Transfer

variable {tree : FileTree} {planned : List PlannedFile} {plan : Plan}

theorem written_files (move : Bool) (hp : tree.Plain)
    (hs : ∀ f ∈ planned, tree.isDirectory f.source = false) :
    Written tree (files move tree planned).tree (files move tree planned).done := by
  induction planned generalizing tree with
  | nil => exact .of_grows (.refl hp)
  | cons f rest ih =>
    have hcarry (target : Text) (ht : freeTarget? tree f.target = some target) :
        (∃ after, (∃ place, tree.Reaches target place ∧ tree.Receives after place) ∧
            carry move tree f.source target = ⟨after, none⟩) ∨
          ∃ fault, carry move tree f.source target = ⟨tree, some fault⟩ := by
      rcases hp.carry_cases move (hs f (by simp)) (exists?_of_freeTarget? ht) with
        ⟨after, place, hr, hreceives, hc⟩ | hc
      · exact .inl ⟨after, ⟨place, hr, hreceives⟩, hc⟩
      · exact .inr hc
    rcases files_cons_cases rest hcarry with
      ⟨target, after, entries, _, ⟨place, hr, hreceives⟩, he⟩ | ⟨entries, fault, he⟩
    · rw [he]
      refine (Written.of_receives hp hr hreceives).trans (ih hreceives.plain fun g hg => ?_)
      exact hreceives.isDirectory_eq_false hp (hs g (by simp [hg]))
    · rw [he]
      exact .of_grows (.refl hp)

theorem written_ofPlan (move : Bool) (hp : tree.Plain) (hs : ∀ f ∈ plan.files, tree.isFile f.source = true) :
    Written tree (ofPlan move tree plan).tree (ofPlan move tree plan).done := by
  have hg := grows_prepared hp plan
  rw [ofPlan_eq]
  split
  · refine (Written.of_grows hg).trans (written_files move hg.plain fun f hf => ?_)
    obtain ⟨place, data, hr, he⟩ := hp.isFile_iff.mp (hs f hf)
    exact FileTree.isDirectory_of_isFile
      (hg.plain.isFile_iff.mpr ⟨place, data, hr.keeps hp hg.keeps, hg.kept place _ he⟩)
  · rw [done_prepared]
    exact .of_grows hg

/-- Copies stay where they are. -/
theorem isFile_of_files_copied (hp : tree.Plain) :
    tree.Extends (files false tree planned).tree ∧
      ∀ p ∈ (files false tree planned).done, (files false tree planned).tree.isFile p.2 = true := by
  induction planned generalizing tree with
  | nil => exact ⟨.refl tree, by simp [files]⟩
  | cons f rest ih =>
    have hcarry (target : Text) (ht : freeTarget? tree f.target = some target) :
        (∃ after, (∃ place data, tree.Reaches target place ∧ tree.lookup? place = none ∧
              after = tree.inserted place (.file data)) ∧ carry false tree f.source target = ⟨after, none⟩) ∨
          ∃ fault, carry false tree f.source target = ⟨tree, some fault⟩ := by
      cases hread : tree.readFile f.source with
      | error fault => exact .inr ⟨fault, by simp [carry, FileTree.copy, hread]⟩
      | ok data =>
        rcases hp.copy_cases hread (exists?_of_freeTarget? ht) with ⟨place, hr, hn, hc⟩ | hc
        · exact .inl ⟨_, ⟨place, data, hr, hn, rfl⟩, hc⟩
        · exact .inr hc
    rcases files_cons_cases rest hcarry with
      ⟨target, _, entries, _, ⟨place, data, hr, hn, rfl⟩, he⟩ | ⟨entries, fault, he⟩
    · have hplain : (tree.inserted place (.file data)).Plain := hp.inserted hr hn (by simp)
      obtain ⟨hext, hdone⟩ := ih hplain
      have hfound := hplain.entryAt_eq_ok_iff.mpr ⟨hr.keeps hp (FileTree.keeps_inserted _ _ _),
        show (tree.inserted place (.file data)).lookup? place = some (.file data) by
          rw [FileTree.lookup?_inserted (FileTree.ne_nil_of_lookup?_none hn) hn, if_pos rfl]⟩
      rw [he]
      refine ⟨(FileTree.Extends.inserted hn _).trans hext, fun p hm => ?_⟩
      rcases List.mem_cons.mp hm with rfl | hm
      · rw [tree_behind, FileTree.isFile, hext.entryAt hfound]
      · exact hdone p hm
    · rw [he]
      exact ⟨.refl tree, by simp⟩

/-- There is a file at each new path, if no photo is moved twice. -/
theorem isFile_of_done (move : Bool) (hp : tree.Plain)
    (hs : move = true → tree.Separate (plan.files.map (·.source))) :
    ∀ p ∈ (ofPlan move tree plan).done, (ofPlan move tree plan).tree.isFile p.2 = true := by
  cases move with
  | true =>
    have hm := moved_ofPlan hp (hs rfl)
    intro p hmem
    obtain ⟨data, place, _, hr, he, _⟩ := hm.carried p hmem
    exact hm.plain.isFile_iff.mpr ⟨place, data, hr, he⟩
  | false =>
    have hg := grows_prepared hp plan
    rw [ofPlan_eq]
    split
    · exact (isFile_of_files_copied hg.plain).2
    · rw [done_prepared]
      exact nofun

end Transfer

end PhotoNaming
