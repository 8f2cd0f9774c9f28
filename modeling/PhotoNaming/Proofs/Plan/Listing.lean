import PhotoNaming.Proofs.Plan.Directories

/-! The order in which a plan lists missing directories. Levels are noted from the outermost one on, record
by record, so a directory never comes before one that it is to stand in. -/
namespace PhotoNaming

/-- Each path of a list comes behind all that `R` puts above it. -/
def Sequenced (R : Text → Text → Prop) (paths : List Text) : Prop :=
  ∀ front path back, paths = front ++ path :: back → ∀ above, R above path → above ∈ front

namespace Sequenced

variable {R : Text → Text → Prop} {paths others : List Text} {path : Text}

theorem nil : Sequenced R [] := by
  intro front path back he
  simp at he

theorem append (h : Sequenced R paths) (h' : Sequenced R others) : Sequenced R (paths ++ others) := by
  intro front path back he above hr
  rcases List.append_eq_append_iff.mp he with ⟨middle, rfl, hm⟩ | ⟨middle, rfl, hm⟩
  · exact List.mem_append_right _ (h' middle path back hm above hr)
  · cases middle with
    | nil =>
      have hfirst := h' [] path back (by simpa using hm.symm) above hr
      cases hfirst
    | cons first middle =>
      obtain ⟨rfl, _⟩ := List.cons.inj hm
      exact h front path middle rfl above hr

theorem concat (h : Sequenced R paths) (hp : ∀ above, R above path → above ∈ paths) :
    Sequenced R (paths ++ [path]) := by
  intro front other back he above hr
  rcases List.eq_nil_or_concat back with rfl | ⟨init, last, rfl⟩
  · obtain ⟨rfl, hlast⟩ := List.append_inj' he rfl
    exact hp above ((List.cons.inj hlast).1 ▸ hr)
  · rw [List.concat_eq_append, ← List.cons_append, ← List.append_assoc] at he
    obtain ⟨rfl, _⟩ := List.append_inj' he rfl
    exact h front other init rfl above hr

theorem flatMap {α : Type} {f : α → List Text} {l : List α} (h : ∀ a ∈ l, Sequenced R (f a)) :
    Sequenced R (l.flatMap f) := by
  induction l with
  | nil => exact nil
  | cons a l ih =>
    rw [List.flatMap_cons]
    exact (h a (by simp)).append (ih fun b hb => h b (by simp [hb]))

/-- Noting those that are missing keeps the order among them. -/
theorem foldl_noted {tree : FileTree} (h : Sequenced R paths) :
    Sequenced (fun above path => R above path ∧ tree.isDirectory above = false)
      (paths.foldl (Plan.noted tree) []) := by
  induction paths using List.reverseRecOn with
  | nil => exact nil
  | append_singleton paths path ih =>
    rw [List.foldl_append, List.foldl_cons, List.foldl_nil, Plan.noted]
    have hbefore : Sequenced R paths := by
      intro front other back he
      exact h front other (back ++ [path]) (by rw [he, List.append_assoc, List.cons_append])
    split
    · exact ih hbefore
    · apply (ih hbefore).concat
      rintro above ⟨hr, hd⟩
      exact Plan.mem_foldl_noted.mpr (.inr ⟨h paths path [] rfl above hr, hd⟩)

end Sequenced

namespace FileName

open PhotoNaming.Path (slashed)

/-- In front of a directory are those of all but the last of its names. -/
theorem exists_of_nested_eq {path d : Text} {names front back : List Text}
    (h : nested path names = front ++ d :: back) :
    ∃ outer name inner, names = outer ++ name :: inner ∧ front = nested path outer ∧
      d = path ++ slashed (outer ++ [name]) := by
  induction names generalizing path front with
  | nil => simp [nested] at h
  | cons n names ih =>
    rw [nested] at h
    cases front with
    | nil =>
      obtain ⟨rfl, _⟩ := List.cons.inj h
      exact ⟨[], n, names, rfl, rfl, by simp⟩
    | cons first front =>
      obtain ⟨hfirst, hrest⟩ := List.cons.inj h
      obtain ⟨outer, name, inner, rfl, rfl, rfl⟩ := ih hrest
      exact ⟨n :: outer, name, inner, rfl, by rw [← hfirst, nested], by simp⟩

end FileName

namespace Plan

open PhotoNaming.Path (IsName slashed)

variable {tree : FileTree} {records : List Record} {pattern : Pattern} {levels : List Pattern}
  {directory : Text} {valid : List Text}

/-- A planned directory is above another one if its path is the first part of the other's. -/
theorem prefix_of_join_slashed (directory : Text) {outer names : List Text}
    (ho : ∀ n ∈ outer, IsName n) (hn : ∀ n ∈ names, IsName n)
    (h : Path.join directory (slashed outer) <+: Path.join directory (slashed names)) :
    outer <+: names := by
  rw [Path.join_slashed directory ho, Path.join_slashed directory hn, List.prefix_append_right_inj] at h
  obtain ⟨rest, hr⟩ := h
  have hc := Path.components_slashed ho rest
  have hc' := Path.components_slashed hn []
  rw [hr] at hc
  rw [List.append_nil, Path.components_nil, List.append_nil] at hc'
  exact ⟨_, hc.symm.trans hc'⟩

/-- A path below the directory for new files that is a first part of another one. -/
def IsAbove (directory above path : Text) : Prop :=
  above <+: path ∧ above ≠ path ∧
    ∃ outer, outer ≠ [] ∧ (∀ n ∈ outer, IsName n) ∧ above = Path.join directory (slashed outer)

theorem sequenced_directories (directory : Text) (levels : List Pattern) (r : Record) :
    Sequenced (IsAbove directory) ((FileName.directories r levels).map (Path.join directory)) := by
  rintro front path back he above ⟨hbelow, hne, outer, hnil, ho, rfl⟩
  obtain ⟨rels, others, hrels, rfl, hothers⟩ := List.map_eq_append_iff.mp he
  obtain ⟨rel, rest, rfl, rfl, rfl⟩ := List.map_eq_cons_iff.mp hothers
  obtain ⟨before, name, inner, hnames, rfl, rfl⟩ := FileName.exists_of_nested_eq hrels
  have hn : ∀ n ∈ before ++ [name], IsName n := by
    intro n hm
    have hmem : n ∈ levelNames levels r := by
      rw [levelNames, hnames]
      simp only [List.mem_append, List.mem_cons, List.not_mem_nil, or_false] at hm ⊢
      exact hm.imp_right .inl
    exact isName_of_mem_levelNames hmem
  rw [List.nil_append] at hbelow hne
  rcases List.prefix_concat_iff.mp (prefix_of_join_slashed directory ho hn hbelow) with
    rfl | hbefore
  · exact absurd rfl hne
  · exact List.mem_map_of_mem (FileName.mem_nested.mpr ⟨outer, hnil, hbefore, rfl⟩)

theorem sequenced_newDirectories (tree : FileTree) (records : List Record) (pattern : Pattern)
    (levels : List Pattern) (directory : Text) (valid : List Text) :
    Sequenced (fun above path => IsAbove directory above path ∧ tree.isDirectory above = false)
      (ofRecords tree records pattern levels directory valid).newDirectories := by
  rw [ofRecords, ofNamed, missingDirectories]
  apply Sequenced.foldl_noted
  rw [List.map_flatMap, List.flatMap_map]
  exact .flatMap fun r _ => sequenced_directories directory levels r

/-- The missing directories of a plan are all those of its records. -/
theorem mem_newDirectories_iff {d : Text} :
    d ∈ (ofRecords tree records pattern levels directory valid).newDirectories ↔
      (∃ r ∈ records, ∃ rel ∈ FileName.directories r levels, d = Path.join directory rel) ∧
        tree.isDirectory d = false := by
  rw [ofRecords, ofNamed, mem_missingDirectories]
  apply and_congr_left
  intro _
  constructor
  · rintro ⟨n, hn, rel, hrel, rfl⟩
    obtain ⟨r, hr, rfl⟩ := List.mem_map.mp hn
    exact ⟨r, hr, rel, hrel, rfl⟩
  · rintro ⟨r, hr, rel, hrel, rfl⟩
    exact ⟨_, List.mem_map_of_mem hr, rel, hrel, rfl⟩

/-- A missing directory is listed behind those above it that are missing, too. -/
theorem mem_front_of_above {front back : List Text} {d above : Text}
    (he : (ofRecords tree records pattern levels directory valid).newDirectories = front ++ d :: back)
    (ha : above ∈ (ofRecords tree records pattern levels directory valid).newDirectories)
    (hp : above <+: d) (hne : above ≠ d) : above ∈ front := by
  obtain ⟨⟨outer, hb, houter⟩, hd⟩ := mem_newDirectories.mp ha
  exact sequenced_newDirectories tree records pattern levels directory valid front d back he above
    ⟨⟨hp, hne, outer, hb.1, hb.isName, houter⟩, hd⟩

end Plan

end PhotoNaming
