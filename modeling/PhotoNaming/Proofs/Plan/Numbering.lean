import PhotoNaming.Plan.Basic

/-! The numbers of a plan, and the directories it lists. Keys stand together in the order of a plan, so
the count that begins again at each new key never gives a number twice to one key. -/
namespace PhotoNaming

namespace NamedRecord

theorem precedes_total (a b : NamedRecord) : (a.precedes b || b.precedes a) = true := by
  simp only [precedes, Bool.or_eq_true, decide_eq_true_eq, Bool.and_eq_true, Bool.not_eq_true']
  grind

theorem precedes_trans (a b c : NamedRecord) (hab : a.precedes b) (hbc : b.precedes c) :
    a.precedes c := by
  simp only [precedes, Bool.or_eq_true, decide_eq_true_eq, Bool.and_eq_true,
    Bool.not_eq_true'] at *
  grind

theorem key_le_of_precedes {a b : NamedRecord} (h : a.precedes b) : ¬ b.key < a.key := by
  simp only [precedes, Bool.or_eq_true, decide_eq_true_eq, Bool.and_eq_true] at h
  grind

end NamedRecord

namespace Plan

/-- Keys do not fall along the list. -/
def Ascending (records : List NamedRecord) : Prop := records.Pairwise fun a b => ¬ b.key < a.key

theorem ascending_mergeSort (records : List NamedRecord) :
    Ascending (records.mergeSort NamedRecord.precedes) :=
  (List.pairwise_mergeSort NamedRecord.precedes_trans NamedRecord.precedes_total records).imp
    NamedRecord.key_le_of_precedes

theorem map_fst_numbered (key : Option Text) (next : Nat) (records : List NamedRecord) :
    (numbered key next records).map (·.1) = records := by
  induction records generalizing key next with
  | nil => rfl
  | cons n rest ih => rw [numbered, List.map_cons, ih]

/-- While a key goes on, its numbers start from the next one. -/
theorem next_le_of_mem_numbered {key : Text} {next : Nat} {records : List NamedRecord}
    (ha : Ascending records) (hk : ∀ n ∈ records, ¬ n.key < key) {p : NamedRecord × Nat}
    (hp : p ∈ numbered (some key) next records) (he : p.1.key = key) : next ≤ p.2 := by
  induction records generalizing next with
  | nil => simp [numbered] at hp
  | cons n rest ih =>
    obtain ⟨hn, hrest⟩ := List.pairwise_cons.mp ha
    rw [numbered, List.mem_cons] at hp
    rcases hp with rfl | hp
    · simp [he]
    · have hm : p.1 ∈ rest := by
        rw [← map_fst_numbered _ _ rest]
        exact List.mem_map_of_mem hp
      have hkey : n.key = key := by
        have hlow := hk n (by simp)
        have hhigh := hn p.1 hm
        rw [he] at hhigh
        grind
      rw [hkey, if_pos rfl] at hp
      have hi := ih hrest (fun m hm => hk m (by simp [hm])) hp
      omega

/-- Numbers rise within a key. -/
theorem pairwise_numbered (key : Option Text) (next : Nat) {records : List NamedRecord}
    (ha : Ascending records) :
    (numbered key next records).Pairwise fun p q => p.1.key = q.1.key → p.2 < q.2 := by
  induction records generalizing key next with
  | nil => simp [numbered]
  | cons n rest ih =>
    obtain ⟨hn, hrest⟩ := List.pairwise_cons.mp ha
    rw [numbered, List.pairwise_cons]
    refine ⟨?_, ih _ _ hrest⟩
    intro q hq he
    exact next_le_of_mem_numbered hrest hn hq he.symm

theorem mem_foldl_noted {tree : FileTree} {paths found : List Text} {p : Text} :
    p ∈ paths.foldl (noted tree) found ↔
      p ∈ found ∨ (p ∈ paths ∧ tree.isDirectory p = false) := by
  induction paths generalizing found with
  | nil => simp
  | cons path paths ih =>
    rw [List.foldl_cons, ih, noted]
    split
    · rename_i h
      rw [Bool.or_eq_true, List.contains_iff_mem] at h
      by_cases hp : p = path
      · rcases h with h | h
        · simp [hp, h]
        · simp [hp, h]
      · simp [hp]
    · rename_i h
      rw [Bool.not_eq_true, Bool.or_eq_false_iff] at h
      by_cases hp : p = path
      · simp [hp, h.2]
      · simp [hp]

/-- The directories of a plan are those of its records that are not there. -/
theorem mem_missingDirectories {tree : FileTree} {directory p : Text} {records : List NamedRecord} :
    p ∈ missingDirectories tree directory records ↔
      (∃ n ∈ records, ∃ d ∈ n.directories, p = Path.join directory d) ∧
        tree.isDirectory p = false := by
  rw [missingDirectories, mem_foldl_noted]
  simp only [List.not_mem_nil, false_or, List.mem_map, List.mem_flatMap]
  grind

end Plan

end PhotoNaming
