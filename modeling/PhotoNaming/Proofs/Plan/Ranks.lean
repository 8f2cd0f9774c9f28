import PhotoNaming.Proofs.Plan.Targets

/-! The number of a record in a plan. It is the record's rank among those with its key by present path, so it
does not matter in which order the records are given, and one record more moves only those behind it. -/
namespace PhotoNaming

namespace NamedRecord

/-- Whether a record comes before another one with the same key. -/
def leads (a b : NamedRecord) : Bool := a.key = b.key ∧ a.source < b.source

/-- How many of some records come before one with the same key. -/
def rank (records : List NamedRecord) (n : NamedRecord) : Nat := records.countP (·.leads n)

variable {a b : NamedRecord}

theorem leads_iff : a.leads b ↔ a.key = b.key ∧ a.source < b.source := by simp [leads]

theorem not_leads_of_precedes (h : a.precedes b) : ¬ b.leads a := by
  simp only [precedes, Bool.or_eq_true, decide_eq_true_eq, Bool.and_eq_true, Bool.not_eq_true'] at h
  rw [leads_iff]
  grind

theorem leads_of_precedes (h : a.precedes b) (hk : a.key = b.key) (hs : a.source ≠ b.source) :
    a.leads b := by
  simp only [precedes, Bool.or_eq_true, decide_eq_true_eq, Bool.and_eq_true, Bool.not_eq_true'] at h
  rw [leads_iff]
  grind

theorem source_eq_of_precedes (h : a.precedes b) (h' : b.precedes a) : a.source = b.source := by
  simp only [precedes, Bool.or_eq_true, decide_eq_true_eq, Bool.and_eq_true, Bool.not_eq_true'] at h h'
  grind

end NamedRecord

namespace Plan

open NamedRecord (rank)

/-- Records numbered in order are numbered by rank; those with the key that goes on, from the next number
on. -/
theorem numbered_eq_map {key : Option Text} {next : Nat} {records : List NamedRecord}
    (ho : records.Pairwise fun a b => a.precedes b ∧ a.source ≠ b.source)
    (hk : ∀ k ∈ key, ∀ n ∈ records, ¬ n.key < k) :
    numbered key next records =
      records.map fun n => (n, (if key = some n.key then next else 1) + rank records n) := by
  induction records generalizing key next with
  | nil => rfl
  | cons n rest ih =>
    obtain ⟨hn, hrest⟩ := List.pairwise_cons.mp ho
    have hfirst : rank (n :: rest) n = 0 := by
      rw [rank, List.countP_eq_zero]
      intro m hm
      rcases List.mem_cons.mp hm with rfl | hm
      · rw [NamedRecord.leads_iff]
        exact fun h => List.lt_irrefl _ h.2
      · exact NamedRecord.not_leads_of_precedes (hn m hm).1
    rw [numbered, List.map_cons, hfirst, Nat.add_zero]
    congr 1
    rw [ih hrest fun k hkey m hm => by
      rw [← Option.some.inj hkey]
      exact NamedRecord.key_le_of_precedes (hn m hm).1]
    apply List.map_congr_left
    intro m hm
    obtain ⟨hp, hs⟩ := hn m hm
    have hrank : rank (n :: rest) m = rank rest m + if n.leads m then 1 else 0 := List.countP_cons
    rw [hrank]
    by_cases he : n.key = m.key
    · rw [if_pos (NamedRecord.leads_of_precedes hp he hs), he, if_pos rfl]
      congr 1
      omega
    · have hkey : key ≠ some m.key := by
        rintro rfl
        exact he (List.le_antisymm (NamedRecord.key_le_of_precedes hp) (hk _ rfl n (by simp)))
      rw [if_neg (fun h => he (NamedRecord.leads_iff.mp h).1), if_neg hkey,
        if_neg (fun h => he (Option.some.inj h)), Nat.add_zero]

/-- Ascending texts rank one after the other. -/
theorem map_rank_eq_range {α : Type} (f : α → Text) (start : Nat) {l : List α}
    (h : l.Pairwise fun a b => f a < f b) :
    (l.map fun b => start + l.countP fun a => f a < f b) = List.range' start l.length := by
  induction l generalizing start with
  | nil => rfl
  | cons a l ih =>
    obtain ⟨ha, hl⟩ := List.pairwise_cons.mp h
    have hfirst : ((a :: l).countP fun b => f b < f a) = 0 := by
      rw [List.countP_eq_zero]
      intro b hb
      rw [decide_eq_true_eq]
      rcases List.mem_cons.mp hb with rfl | hb
      · exact List.lt_irrefl _
      · exact List.lt_asymm (ha b hb)
    rw [List.map_cons, hfirst, List.length_cons, List.range'_succ, ← ih (start + 1) hl]
    congr 1
    apply List.map_congr_left
    intro b hb
    rw [List.countP_cons_of_pos (by simpa using ha b hb)]
    omega

variable (tree : FileTree) (records : List Record) (pattern : Pattern) (levels : List Pattern)
  (directory : Text) (valid : List Text)

/-- The key of a record for some patterns. -/
def keyOf (r : Record) : Text := (NamedRecord.ofRecord pattern levels valid r).key

/-- One more than the records that come before one with the same key. -/
def number (r : Record) : Nat :=
  1 + records.countP fun s =>
    keyOf pattern levels valid s = keyOf pattern levels valid r ∧ s.source < r.source

variable {records}

theorem number_eq_rank (r : Record) :
    number records pattern levels valid r =
      1 + rank (records.map (NamedRecord.ofRecord pattern levels valid))
        (NamedRecord.ofRecord pattern levels valid r) := by
  rw [number, rank, List.countP_map]
  rfl

theorem number_perm {others : List Record} (h : others.Perm records) (r : Record) :
    number others pattern levels valid r = number records pattern levels valid r := by
  rw [number, number, h.countP_eq]

theorem perm_arranged : (arranged records pattern levels valid).Perm records := List.mergeSort_perm _ _

theorem pairwise_arranged (hs : (records.map (·.source)).Nodup) :
    (arranged records pattern levels valid).Pairwise fun a b =>
      (NamedRecord.ofRecord pattern levels valid a).precedes
        (NamedRecord.ofRecord pattern levels valid b) ∧ a.source ≠ b.source := by
  have hnodup : ((arranged records pattern levels valid).map (·.source)).Nodup :=
    ((perm_arranged pattern levels valid).map _).nodup_iff.mpr hs
  let named (r : Record) := NamedRecord.ofRecord pattern levels valid r
  have hsorted : (arranged records pattern levels valid).Pairwise fun a b =>
      (named a).precedes (named b) :=
    List.pairwise_mergeSort (fun a b c => NamedRecord.precedes_trans (named a) (named b) (named c))
      (fun a b => NamedRecord.precedes_total (named a) (named b)) records
  exact hsorted.and (List.pairwise_map.mp hnodup)

/-- Every record has the file with its number. -/
theorem files_eq_map (hs : (records.map (·.source)).Nodup) :
    (ofRecords tree records pattern levels directory valid).files =
      (arranged records pattern levels valid).map fun r =>
        fileOf pattern levels directory valid (number records pattern levels valid r) r := by
  have ho : ((arranged records pattern levels valid).map
      (NamedRecord.ofRecord pattern levels valid)).Pairwise
        fun a b => a.precedes b ∧ a.source ≠ b.source := by
    rw [List.pairwise_map]
    exact pairwise_arranged pattern levels valid hs
  rw [ofRecords, ofNamed, ← map_arranged, numbered_eq_map ho (by simp), List.map_map, List.map_map]
  apply List.map_congr_left
  intro r _
  rw [← number_perm pattern levels valid (perm_arranged pattern levels valid) r, number_eq_rank]
  rfl

theorem arranged_perm {others : List Record} (hs : (records.map (·.source)).Nodup)
    (h : others.Perm records) :
    arranged others pattern levels valid = arranged records pattern levels valid := by
  have hs' : (others.map (·.source)).Nodup := (h.map _).nodup_iff.mpr hs
  refine List.Perm.eq_of_pairwise ?_ (pairwise_arranged pattern levels valid hs')
    (pairwise_arranged pattern levels valid hs)
    (((perm_arranged pattern levels valid).trans h).trans (perm_arranged pattern levels valid).symm)
  intro a b _ _ hab hba
  exact absurd (NamedRecord.source_eq_of_precedes hab.1 hba.1) hab.2

/-- The numbers of the records with one key, in the order of their present paths. -/
theorem map_number_group (hs : (records.map (·.source)).Nodup) (key : Text) :
    let group := (arranged records pattern levels valid).filter
      (keyOf pattern levels valid · = key)
    (group.Pairwise fun a b => a.source < b.source) ∧
      group.map (number records pattern levels valid) = List.range' 1 group.length := by
  intro group
  have hkey {r : Record} (hr : r ∈ group) : keyOf pattern levels valid r = key := by
    simpa using (List.mem_filter.mp hr).2
  have hsorted : group.Pairwise fun a b => a.source < b.source := by
    apply ((pairwise_arranged pattern levels valid hs).filter _).imp_of_mem
    intro a b ha hb hab
    have hsame : (NamedRecord.ofRecord pattern levels valid a).key =
        (NamedRecord.ofRecord pattern levels valid b).key := (hkey ha).trans (hkey hb).symm
    exact (NamedRecord.leads_iff.mp (NamedRecord.leads_of_precedes hab.1 hsame hab.2)).2
  refine ⟨hsorted, ?_⟩
  rw [← map_rank_eq_range (·.source) 1 hsorted]
  apply List.map_congr_left
  intro r hr
  rw [← number_perm pattern levels valid (perm_arranged pattern levels valid) r, number, hkey hr,
    List.countP_filter]
  congr 2
  funext s
  simp [and_comm]

theorem number_cons (added r : Record) :
    number (added :: records) pattern levels valid r =
      number records pattern levels valid r +
        if keyOf pattern levels valid added = keyOf pattern levels valid r ∧
          added.source < r.source then 1 else 0 := by
  rw [number, number, List.countP_cons, Nat.add_assoc]
  simp

/-- Photos with different present paths are numbered within each key by these paths, from 1 without gaps. The
files of the plan are the same in whatever order the photos are given, and one photo more moves on those of
its key that come behind it, and no other. -/
theorem files_numbered_by_rank (hs : (records.map (·.source)).Nodup) :
    let files (records : List Record) :=
      (ofRecords tree records pattern levels directory valid).files
    let file (number : Nat) (r : Record) := fileOf pattern levels directory valid number r
    (∃ order : List Record, order.Perm records ∧
      files records = order.map (fun r => file (number records pattern levels valid r) r) ∧
      ∀ key, let group := order.filter (keyOf pattern levels valid · = key)
        (group.Pairwise fun a b => a.source < b.source) ∧
          group.map (number records pattern levels valid) = List.range' 1 group.length) ∧
    (∀ others : List Record, others.Perm records → files others = files records) ∧
    ∀ (added : Record) (more : List Record), more.Perm (added :: records) →
      (more.map (·.source)).Nodup → ∀ r ∈ records,
        file (number records pattern levels valid r +
          if keyOf pattern levels valid added = keyOf pattern levels valid r ∧
            added.source < r.source then 1 else 0) r ∈ files more := by
  intro files file
  refine ⟨⟨arranged records pattern levels valid, perm_arranged pattern levels valid,
    files_eq_map tree pattern levels directory valid hs, map_number_group pattern levels valid hs⟩, ?_, ?_⟩
  · intro others h
    have hs' : (others.map (·.source)).Nodup := (h.map _).nodup_iff.mpr hs
    simp only [files]
    rw [files_eq_map tree pattern levels directory valid hs',
      files_eq_map tree pattern levels directory valid hs, arranged_perm pattern levels valid hs h]
    apply List.map_congr_left
    intro r _
    rw [number_perm pattern levels valid h]
  · intro added more h hs' r hr
    have hm : r ∈ arranged more pattern levels valid :=
      (perm_arranged pattern levels valid).mem_iff.mpr (h.mem_iff.mpr (List.mem_cons_of_mem _ hr))
    simp only [files, file]
    rw [files_eq_map tree pattern levels directory valid hs', ← number_cons,
      ← number_perm pattern levels valid h]
    exact List.mem_map_of_mem hm

/-- Two photos with one name, given in either order. -/
theorem two_files_numbered_by_rank :
    let records : List Record := [.empty ['a'], .empty ['b']]
    let files (records : List Record) :=
      (ofRecords ⟨[], []⟩ records (.compile ['p']) [] ['.'] []).files
    (records.map (·.source)).Nodup ∧
      files records = [⟨['a'], "p_1".toList⟩, ⟨['b'], "p_2".toList⟩] ∧
      files records.reverse = files records := by
  intro records files
  have hs : (records.map (·.source)).Nodup := by decide
  have hnamed : records.map (NamedRecord.ofRecord (.compile ['p']) [] []) =
      [⟨['a'], ['p'], [], []⟩, ⟨['b'], ['p'], [], []⟩] := by decide +kernel
  have hfiles : files records = [⟨['a'], "p_1".toList⟩, ⟨['b'], "p_2".toList⟩] := by
    simp only [files, ofRecords, hnamed, ofNamed]
    rw [List.mergeSort_of_pairwise (by decide +kernel)]
    decide +kernel
  obtain ⟨_, hp, _⟩ := files_numbered_by_rank ⟨[], []⟩ (.compile ['p']) [] ['.'] [] hs
  exact ⟨hs, hfiles, hp _ records.reverse_perm⟩

end Plan

end PhotoNaming
