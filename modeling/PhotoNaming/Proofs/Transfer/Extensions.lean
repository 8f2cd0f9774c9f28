import PhotoNaming.Proofs.FileName.Ending
import PhotoNaming.Proofs.Transfer.Candidates
import PhotoNaming.Proofs.Transfer.Written

/-! The extensions of files that are copied or moved. They stand behind the number of the planned name, and
a mark that makes a name free is put between the two, so a file always has the extension planned for it. -/
namespace PhotoNaming

namespace FileName

/-- A photo's extension is a valid one, or the one it has. -/
theorem extension_parts (r : Record) (pattern : Pattern) (valid : List Text) :
    Text.lowered (parts r pattern valid).2 ∈ valid ∨
      (parts r pattern valid).2 = Path.extension r.source := by
  rw [parts_eq]
  dsimp only
  split
  · rename_i h
    exact .inl h.2
  · exact .inr rfl

end FileName

namespace Plan

open NamedRecord (ofRecord sound_ofRecord)

variable (pattern : Pattern) (levels : List Pattern) (directory : Text) (valid : List Text)

/-- A planned path is what stands before the number, the number, and the extension, which is where the path
is cut. All that is tried for it is cut at the same extension. -/
theorem exists_front_fileOf (number : Nat) (r : Record) :
    let stem := (FileName.parts r pattern valid).1
    let extension := (FileName.parts r pattern valid).2
    ∃ front, (front = [] ∨ front.getLast? = some '/') ∧
      let numbered := front ++ stem ++ '_' :: Text.ofNat number
      fileOf pattern levels directory valid number r = ⟨r.source, numbered ++ extension⟩ ∧
      Path.splitExtension (numbered ++ extension) = (numbered, extension) ∧
      ∀ c ∈ candidates (numbered ++ extension), Path.extension c = extension ∧
        (c = numbered ++ extension ∨ ∃ k, 1 ≤ k ∧ k ≤ 99 ∧
          c = numbered ++ '(' :: Text.zeroPadded 2 k ++ ')' :: extension) := by
  intro stem extension
  have hs := sound_ofRecord pattern levels valid r
  obtain ⟨names, _, hn, hd⟩ := hs.directories
  obtain ⟨front, hfront, htarget⟩ : ∃ front, (front = [] ∨ front.getLast? = some '/') ∧
      (ofRecord pattern levels valid r).target directory number =
        front ++ (ofRecord pattern levels valid r).numberedName number :=
    ⟨_, Path.getLast?_root_slashed directory _, hs.target_eq hn hd directory number⟩
  have hcut {mark : Text} (hm : IsMark mark) :
      Path.splitExtension (front ++ stem ++ '_' :: Text.ofNat number ++ mark ++ extension) =
        (front ++ stem ++ '_' :: Text.ofNat number ++ mark, extension) := by
    have h := hs.splitExtension_markedName hm number hfront
    simp only [NamedRecord.markedName, ofRecord, ← List.append_assoc] at h
    exact h
  have hplain := hcut .nil
  rw [List.append_nil] at hplain
  refine ⟨front, hfront, ?_, hplain, ?_⟩
  · rw [fileOf, htarget, NamedRecord.numberedName, ← List.append_assoc, ← List.append_assoc]
    rfl
  · intro c hc
    rcases mem_candidates_iff.mp hc with rfl | ⟨k, hk, hmax, rfl⟩
    · exact ⟨Path.extension_of_splitExtension hplain, .inl rfl⟩
    · rw [hplain]
      refine ⟨?_, .inr ⟨k, hk, hmax, rfl⟩⟩
      have hmarked := hcut (.inr ⟨k, rfl⟩ : IsMark ('(' :: Text.zeroPadded 2 k ++ [')']))
      simp only [List.append_assoc, List.cons_append, List.nil_append] at hmarked ⊢
      exact Path.extension_of_splitExtension hmarked

end Plan

namespace Transfer

variable (move : Bool) (current : FileTree)

theorem length_done_ofPlan (plan : Plan) :
    (ofPlan move current plan).done.length ≤ plan.files.length ∧
      ((ofPlan move current plan).fault = none →
        (ofPlan move current plan).done.length = plan.files.length) := by
  obtain ⟨dealt, undone, he, hd, hf⟩ := exists_dealt_ofPlan move current plan
  rw [← hd.length_eq, he, List.length_append]
  exact ⟨Nat.le_add_right _ _, fun hnone => by rw [hf hnone, List.length_nil, Nat.add_zero]⟩

theorem mem_candidates_of_done {plan : Plan} {i : Nat} {f : PlannedFile} {p : Text × Text}
    (hf : plan.files[i]? = some f) (hp : (ofPlan move current plan).done[i]? = some p) :
    p.1 = f.source ∧ p.2 ∈ candidates f.target := by
  obtain ⟨dealt, undone, he, hd, _⟩ := exists_dealt_ofPlan move current plan
  obtain ⟨hi, rfl⟩ := List.getElem?_eq_some_iff.mp hp
  have hi' : i < dealt.length := hd.length_eq ▸ hi
  rw [he, List.getElem?_append_left hi', List.getElem?_eq_getElem hi'] at hf
  obtain rfl := Option.some.inj hf
  exact hd.get hi' hi

/-- The extension of a photo's name is cut off its planned path behind the number, whatever dots stand
anywhere before, and so it is from the path that a run gives the file, in which nothing else than a number
in brackets is put before it. It is a valid extension or the one the photo has. The files that a run adds stand
where these paths lead, and each of them leads to a file as long as no photo is moved twice. -/
theorem extensions_kept (tree : FileTree) (records : List Record) (pattern : Pattern)
    (levels : List Pattern) (directory : Text) (valid : List Text) :
    let plan := Plan.ofRecords tree records pattern levels directory valid
    let run := ofPlan move current plan
    run.done.length ≤ plan.files.length ∧
      (run.fault = none → run.done.length = plan.files.length) ∧
      (∃ order : List Record, order.Perm records ∧ order.length = plan.files.length ∧
        ∀ (i : Nat) (r : Record) (f : PlannedFile), order[i]? = some r → plan.files[i]? = some f →
          let stem := (FileName.parts r pattern valid).1
          let extension := (FileName.parts r pattern valid).2
          (Text.lowered extension ∈ valid ∨ extension = Path.extension r.source) ∧
          ∃ front number, (front = [] ∨ front.getLast? = some '/') ∧
            let numbered := front ++ stem ++ '_' :: Text.ofNat number
            f = ⟨r.source, numbered ++ extension⟩ ∧
            Path.splitExtension f.target = (numbered, extension) ∧
            ∀ source target, run.done[i]? = some (source, target) →
              source = r.source ∧ Path.extension target = extension ∧
                (target = f.target ∨ ∃ k, 1 ≤ k ∧ k ≤ 99 ∧
                  target = numbered ++ '(' :: Text.zeroPadded 2 k ++ ')' :: extension)) ∧
      (current.Plain → (∀ r ∈ records, current.isFile r.source = true) →
        ∀ place data, run.tree.lookup? place = some (.file data) →
          current.lookup? place = some (.file data) ∨
            ∃ p ∈ run.done, run.tree.entryAt p.2 = .ok (place, .file data)) ∧
      (current.Plain → (move = true → current.Separate (records.map (·.source))) →
        ∀ p ∈ run.done, run.tree.isFile p.2 = true) := by
  intro plan run
  have harranged := Plan.forall₂_arranged tree records pattern levels directory valid
  obtain ⟨hle, hall⟩ := length_done_ofPlan move current plan
  refine ⟨hle, hall, ⟨Plan.arranged records pattern levels valid, List.mergeSort_perm _ _,
    harranged.length_eq, ?_⟩, ?_, ?_⟩
  · intro i r f hr hf stem extension
    obtain ⟨hi, rfl⟩ := List.getElem?_eq_some_iff.mp hr
    obtain ⟨hi', rfl⟩ := List.getElem?_eq_some_iff.mp hf
    obtain ⟨number, hfile⟩ := harranged.get hi hi'
    obtain ⟨front, hfront, he, hcut, htried⟩ :=
      Plan.exists_front_fileOf pattern levels directory valid number
        (Plan.arranged records pattern levels valid)[i]
    refine ⟨FileName.extension_parts _ pattern valid, front, number, hfront, ?_⟩
    intro numbered
    have htarget : plan.files[i] = ⟨_, numbered ++ extension⟩ := hfile.trans he
    rw [htarget]
    refine ⟨rfl, hcut, fun source target hdone => ?_⟩
    obtain ⟨hsource, hmem⟩ := mem_candidates_of_done move current hf hdone
    rw [htarget] at hsource hmem
    exact ⟨hsource, htried target hmem⟩
  · intro hp hs place data he
    have hw := written_ofPlan move hp fun f (hf : f ∈ plan.files) => Plan.isFile_of_mem_files hs hf
    refine (hw.fresh place data he).imp_right ?_
    rintro ⟨p, hm, hr⟩
    exact ⟨p, hm, hw.plain.entryAt_eq_ok_iff.mpr ⟨hr, he⟩⟩
  · intro hp hs
    exact isFile_of_done move hp fun hmove =>
      (hs hmove).map_source_files tree pattern levels directory valid

end Transfer

end PhotoNaming
