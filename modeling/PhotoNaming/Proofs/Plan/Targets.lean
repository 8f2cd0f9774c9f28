import PhotoNaming.Proofs.Plan.Levels
import PhotoNaming.Proofs.Plan.Names
import PhotoNaming.Proofs.Plan.Numbering
import Mathlib.Data.List.Forall2

/-! Where planned files are to go. No two of them have one path, and each lies below the directory for
new files, as many names deep as there are levels and one for the file. -/
namespace PhotoNaming

namespace NamedRecord

open PhotoNaming.Path (IsName slashed)

/-- Two records with one target have one key and one number. -/
theorem Sound.target_inj {depth depth' : Nat} {n n' : NamedRecord} (h : n.Sound depth)
    (h' : n'.Sound depth') {directory : Text} {number number' : Nat}
    (he : n.target directory number = n'.target directory number') :
    n.key = n'.key ∧ number = number' := by
  obtain ⟨names, _, hn, hd⟩ := h.directories
  obtain ⟨names', _, hn', hd'⟩ := h'.directories
  rw [h.target_eq hn hd, h'.target_eq hn' hd', List.append_assoc, List.append_assoc] at he
  have hp := List.append_cancel_left he
  rw [Path.slashed_append, Path.slashed_append, List.append_assoc, List.append_assoc] at hp
  have hc := congrArg Path.components (List.append_cancel_left hp)
  have hf := h.isName_markedName .nil number
  have hf' := h'.isName_markedName .nil number'
  rw [← markedName_nil, ← markedName_nil, Path.components_slashed hn, Path.components_slashed hn',
    Path.components_name hf, Path.components_name hf'] at hc
  obtain ⟨hnames, hlast⟩ := List.append_inj' hc rfl
  obtain ⟨hs, hi, _, hx⟩ := h.markedName_inj h' .nil .nil (List.cons.inj hlast).1
  refine ⟨?_, hi⟩
  rw [key, key, lastDirectory, lastDirectory, fileName, fileName, hd, hd', hnames, hs, hx]

end NamedRecord

namespace Plan

open PhotoNaming.Path (IsName)

variable (tree : FileTree) (records : List Record) (pattern : Pattern) (levels : List Pattern)
  (directory : Text) (valid : List Text)

/-- The planned file of a record with a number. -/
def fileOf (number : Nat) (r : Record) : PlannedFile :=
  ⟨r.source, (NamedRecord.ofRecord pattern levels valid r).target directory number⟩

/-- The order in which records are numbered. -/
def arranged : List Record :=
  records.mergeSort fun a b => (NamedRecord.ofRecord pattern levels valid a).precedes
    (NamedRecord.ofRecord pattern levels valid b)

theorem map_arranged :
    (arranged records pattern levels valid).map (NamedRecord.ofRecord pattern levels valid) =
      (records.map (NamedRecord.ofRecord pattern levels valid)).mergeSort NamedRecord.precedes :=
  List.map_mergeSort fun _ _ _ _ => rfl

/-- Every record has one planned file, in the order of numbering. -/
theorem forall₂_arranged :
    List.Forall₂ (fun r f => ∃ number, f = fileOf pattern levels directory valid number r)
      (arranged records pattern levels valid)
      (ofRecords tree records pattern levels directory valid).files := by
  have run (key : Option Text) (next : Nat) (rs : List Record) :
      List.Forall₂ (fun r f => ∃ number, f = fileOf pattern levels directory valid number r) rs
        ((numbered key next (rs.map (NamedRecord.ofRecord pattern levels valid))).map
          fun p => ⟨p.1.source, p.1.target directory p.2⟩) := by
    induction rs generalizing key next with
    | nil => exact .nil
    | cons r rs ih =>
      rw [List.map_cons, numbered, List.map_cons]
      exact .cons ⟨_, rfl⟩ (ih _ _)
  rw [ofRecords, ofNamed, ← map_arranged]
  exact run none 1 _

theorem map_source_files :
    (ofRecords tree records pattern levels directory valid).files.map (·.source) =
      (arranged records pattern levels valid).map (·.source) := by
  have run {rs : List Record} {fs : List PlannedFile}
      (h : List.Forall₂ (fun r f => ∃ number, f = fileOf pattern levels directory valid number r)
        rs fs) : fs.map (·.source) = rs.map (·.source) := by
    induction h with
    | nil => rfl
    | cons hf _ ih =>
      obtain ⟨number, rfl⟩ := hf
      rw [List.map_cons, List.map_cons, ih, fileOf]
  exact run (forall₂_arranged tree records pattern levels directory valid)

variable {tree records pattern levels directory valid}

theorem files_ne_nil_of_mem {r : Record} (h : r ∈ records) :
    (ofRecords tree records pattern levels directory valid).files ≠ [] := by
  intro hnil
  have hm := map_source_files tree records pattern levels directory valid
  rw [hnil, List.map_nil] at hm
  have ha : arranged records pattern levels valid = [] := List.map_eq_nil_iff.mp hm.symm
  have hr : r ∈ arranged records pattern levels valid := (List.mergeSort_perm _ _).mem_iff.mpr h
  rw [ha] at hr
  cases hr

theorem exists_of_mem_numbered {p : NamedRecord × Nat}
    (h : p ∈ numbered none 1 ((records.map (NamedRecord.ofRecord pattern levels valid)).mergeSort
      NamedRecord.precedes)) :
    ∃ r ∈ records, p.1 = NamedRecord.ofRecord pattern levels valid r := by
  have hm := List.mem_map_of_mem (f := Prod.fst) h
  rw [map_fst_numbered, (List.mergeSort_perm _ _).mem_iff, List.mem_map] at hm
  obtain ⟨r, hr, he⟩ := hm
  exact ⟨r, hr, he.symm⟩

theorem exists_of_mem_files {f : PlannedFile}
    (h : f ∈ (ofRecords tree records pattern levels directory valid).files) :
    ∃ r ∈ records, ∃ number, f = fileOf pattern levels directory valid number r := by
  obtain ⟨p, hp, rfl⟩ := List.mem_map.mp h
  obtain ⟨r, hr, he⟩ := exists_of_mem_numbered hp
  exact ⟨r, hr, p.2, by rw [fileOf, ← he]; simp only [he, NamedRecord.ofRecord]⟩

/-- Files that are planned at different places of a plan differ in key or number. -/
theorem pairwise_target :
    (ofRecords tree records pattern levels directory valid).files.Pairwise
      fun f g => f.target ≠ g.target := by
  rw [ofRecords, ofNamed, List.pairwise_map]
  apply (pairwise_numbered none 1 (ascending_mergeSort _)).imp_of_mem
  intro p q hp hq hlt he
  obtain ⟨r, _, hr⟩ := exists_of_mem_numbered hp
  obtain ⟨r', _, hr'⟩ := exists_of_mem_numbered hq
  have hs := NamedRecord.sound_ofRecord pattern levels valid r
  have hs' := NamedRecord.sound_ofRecord pattern levels valid r'
  rw [← hr] at hs
  rw [← hr'] at hs'
  obtain ⟨hk, hi⟩ := hs.target_inj hs' he
  have hrise := hlt hk
  omega

variable (tree records pattern levels directory valid)

/-- Whatever the records and patterns, no two files of a plan have one target, and each record has one
file of the plan. -/
theorem targets_nodup :
    ((ofRecords tree records pattern levels directory valid).files.map (·.target)).Nodup ∧
      ∃ order : List Record, order.Perm records ∧
        List.Forall₂ (fun r f => ∃ number, f = fileOf pattern levels directory valid number r) order
          (ofRecords tree records pattern levels directory valid).files :=
  ⟨List.pairwise_map.mpr pairwise_target, _, List.mergeSort_perm _ _,
    forall₂_arranged tree records pattern levels directory valid⟩

theorem target_below {depth : Nat} {n : NamedRecord} (h : n.Sound depth) (number : Nat) :
    ∃ names name, names.length = depth ∧ (∀ m ∈ names, IsName m) ∧ IsName name ∧
      Path.root (n.target directory number) = Path.root (Path.normal directory) ∧
      Path.components (n.target directory number) =
        Path.components (Path.normal directory) ++ names ++ [name] := by
  obtain ⟨names, hlength, hn, hd⟩ := h.directories
  have hname := h.isName_markedName .nil number
  have hp := Path.normalParts_join_names directory hn hname.isAbsolute
    (by simp [Path.components_name hname, hname])
  have hr := Path.root_join directory (Path.isAbsolute_slashed_append hn hname.isAbsolute)
  have ht : n.target directory number =
      Path.normal (Path.join directory (Path.slashed names ++ n.markedName number [])) := by
    rw [h.target_eq hn hd, ← NamedRecord.markedName_nil, ← Path.normal_join directory hn hname,
      Path.join_join directory hn hname.isAbsolute]
  refine ⟨names, n.markedName number [], hlength, hn, hname, ?_, ?_⟩
  · rw [ht, Path.root_normal, hr, Path.root_normal]
  · rw [ht, Path.components_normal, hp, Path.components_normal, Path.components_name hname]

theorem newDirectory_below {depth : Nat} {n : NamedRecord} (h : n.Sound depth) {d : Text}
    (hd : d ∈ n.directories) :
    ∃ names, 1 ≤ names.length ∧ names.length ≤ depth ∧ (∀ m ∈ names, IsName m) ∧
      d = Path.slashed names ∧
      Path.root (Path.normal (Path.join directory d)) = Path.root (Path.normal directory) ∧
      Path.components (Path.normal (Path.join directory d)) =
        Path.components (Path.normal directory) ++ names := by
  obtain ⟨names, hlength, hn, hdirs⟩ := h.directories
  rw [hdirs, FileName.mem_nested] at hd
  obtain ⟨front, hne, hf, hd⟩ := hd
  rw [List.nil_append] at hd
  have hn' : ∀ m ∈ front, IsName m := fun m hm => hn m (hf.subset hm)
  have hp := Path.normalParts_join_slashed directory hn'
  have hr := Path.root_join directory (Path.isAbsolute_slashed hn')
  refine ⟨front, List.length_pos_iff.mpr hne, hlength ▸ hf.length_le, hn', hd, ?_, ?_⟩
  · rw [hd, Path.root_normal, hr, Path.root_normal]
  · rw [hd, Path.components_normal, hp, Path.components_normal]

/-- Targets lie below the directory for new files, exactly as deep as there are levels; so do the
directories that are to be made, at most as deep. Whatever records hold, no level leads elsewhere. -/
theorem targets_below (text : Text) :
    (∀ f ∈ (ofRecords tree records pattern (Pattern.compileLevels text) directory valid).files,
      ∃ names name, names.length = Pattern.levelCount text ∧ (∀ n ∈ names, IsName n) ∧
        IsName name ∧ Path.root f.target = Path.root (Path.normal directory) ∧
        Path.components f.target = Path.components (Path.normal directory) ++ names ++ [name]) ∧
    (∀ d ∈ (ofRecords tree records pattern (Pattern.compileLevels text) directory
        valid).newDirectories,
      ∃ names, 1 ≤ names.length ∧ names.length ≤ Pattern.levelCount text ∧
        (∀ n ∈ names, IsName n) ∧
        Path.root (Path.normal d) = Path.root (Path.normal directory) ∧
        Path.components (Path.normal d) = Path.components (Path.normal directory) ++ names) ∧
    ∀ r ∈ records,
      (FileName.directories r (Pattern.compileLevels text)).length = Pattern.levelCount text ∧
        List.IsChain (fun above d => ∃ name, IsName name ∧ d = above ++ name ++ ['/'])
          ([] :: FileName.directories r (Pattern.compileLevels text)) := by
  rw [← Pattern.length_compileLevels]
  refine ⟨?_, ?_, fun r _ => ⟨?_, ?_⟩⟩
  · intro f hf
    obtain ⟨r, _, number, rfl⟩ := exists_of_mem_files hf
    simp only [fileOf]
    exact target_below directory
      (NamedRecord.sound_ofRecord pattern (Pattern.compileLevels text) valid r) number
  · intro d hd
    obtain ⟨⟨n, hn, rel, hrel, rfl⟩, _⟩ := mem_missingDirectories.mp hd
    obtain ⟨r, _, rfl⟩ := List.mem_map.mp hn
    obtain ⟨names, hpos, hle, hnames, _, hroot, hparts⟩ :=
      newDirectory_below directory
        (NamedRecord.sound_ofRecord pattern (Pattern.compileLevels text) valid r) hrel
    exact ⟨names, hpos, hle, hnames, hroot, hparts⟩
  · rw [FileName.directories, FileName.length_nested, List.length_map]
  · apply FileName.isChain_nested
    intro name hname
    obtain ⟨p, _, rfl⟩ := List.mem_map.mp hname
    exact FileName.isName_level _

end Plan

end PhotoNaming
