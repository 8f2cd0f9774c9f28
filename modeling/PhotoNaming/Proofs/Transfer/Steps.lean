import PhotoNaming.Plan.Transfer
import PhotoNaming.Proofs.FileTree.Effect
import PhotoNaming.Proofs.Text.Sorted
import Mathlib.Data.List.Forall2

/-! What every run of a plan has in common, whether it copies or moves: directories come first, files
are dealt with in the order of the plan, and each goes to a path that leads to nothing yet. -/
namespace PhotoNaming.Transfer

variable {tree after : FileTree} {move : Bool} {planned : PlannedFile}
  {target : Text}

@[simp] theorem tree_behind (entries : List Journal.Entry) (done : List (Text × Text))
    (t : Transfer) : (t.behind entries done).tree = t.tree := rfl

@[simp] theorem done_behind (entries : List Journal.Entry) (done : List (Text × Text))
    (t : Transfer) : (t.behind entries done).done = done ++ t.done := rfl

@[simp] theorem fault_behind (entries : List Journal.Entry) (done : List (Text × Text))
    (t : Transfer) : (t.behind entries done).fault = t.fault := rfl

theorem behind_behind (entries entries' : List Journal.Entry) (done done' : List (Text × Text))
    (t : Transfer) :
    (t.behind entries done).behind entries' done' = t.behind (entries' ++ entries) (done' ++ done) := by
  simp [behind]

theorem exists?_of_freeTarget? {path : Text} (h : freeTarget? tree path = some target) :
    tree.exists? target = false := by
  have hk := List.find?_some h
  simpa using hk

/-- A run goes on behind a file that could be dealt with. -/
theorem files_cons_of_done (rest : List PlannedFile) (ht : freeTarget? tree planned.target = some target)
    (hc : carry move tree planned.source target = ⟨after, none⟩) :
    ∃ entries, files move tree (planned :: rest) =
      (files move after rest).behind entries [(planned.source, target)] := by
  rw [files]
  simp only [ht, hc]
  exact ⟨_, rfl⟩

/-- A run ends at the first file that cannot be dealt with. -/
theorem files_cons_of_fault (rest : List PlannedFile)
    (h : freeTarget? tree planned.target = none ∨
      ∃ target fault, freeTarget? tree planned.target = some target ∧
        carry move tree planned.source target = ⟨tree, some fault⟩) :
    ∃ entries fault, files move tree (planned :: rest) = ⟨tree, entries, [], some fault⟩ := by
  rw [files]
  rcases h with ht | ⟨target, fault, ht, hc⟩
  · simp only [ht]
    exact ⟨_, _, rfl⟩
  · simp only [ht, hc]
    exact ⟨_, _, rfl⟩

/-- What becomes of the first file: it is carried to a free path, by a change of which something is known, and
the run goes on from there, or the run ends with the tree as it is. -/
theorem files_cons_cases {Carries : Text → FileTree → Prop} (rest : List PlannedFile)
    (h : ∀ target, freeTarget? tree planned.target = some target →
      (∃ after, Carries target after ∧ carry move tree planned.source target = ⟨after, none⟩) ∨
        ∃ fault, carry move tree planned.source target = ⟨tree, some fault⟩) :
    (∃ target after entries, freeTarget? tree planned.target = some target ∧ Carries target after ∧
        files move tree (planned :: rest) =
          (files move after rest).behind entries [(planned.source, target)]) ∨
      ∃ entries fault, files move tree (planned :: rest) = ⟨tree, entries, [], some fault⟩ := by
  cases ht : freeTarget? tree planned.target with
  | none => exact .inr (files_cons_of_fault rest (.inl ht))
  | some target =>
    rcases h target ht with ⟨after, hcarries, hc⟩ | ⟨fault, hc⟩
    · obtain ⟨entries, he⟩ := files_cons_of_done rest ht hc
      exact .inl ⟨target, after, entries, rfl, hcarries, he⟩
    · exact .inr (files_cons_of_fault rest (.inr ⟨target, fault, ht, hc⟩))

/-- The files that are done are the first ones of the plan, each at one of the paths that are tried for it;
they are all of them if there is no fault. -/
theorem exists_dealt (move : Bool) (tree : FileTree) (planned : List PlannedFile) :
    ∃ dealt undone, planned = dealt ++ undone ∧
      List.Forall₂ (fun f p => p.1 = f.source ∧ p.2 ∈ candidates f.target) dealt
        (files move tree planned).done ∧
      ((files move tree planned).fault = none ↔ undone = []) := by
  induction planned generalizing tree with
  | nil => exact ⟨[], [], rfl, .nil, by simp [files]⟩
  | cons planned rest ih =>
    rw [files]
    split
    · exact ⟨[], _, rfl, .nil, by simp⟩
    · rename_i target ht
      dsimp only
      split
      · exact ⟨[], _, rfl, .nil, by simp⟩
      · obtain ⟨dealt, undone, he, hd, hf⟩ := ih (carry move tree planned.source target).tree
        refine ⟨planned :: dealt, undone, by rw [he]; rfl, ?_, hf⟩
        exact .cons ⟨rfl, List.mem_of_find?_eq_some ht⟩ hd

private theorem sources_of_dealt {dealt : List PlannedFile} {done : List (Text × Text)}
    (h : List.Forall₂ (fun f p => p.1 = f.source ∧ p.2 ∈ candidates f.target) dealt done) :
    dealt.map (·.source) = done.map (·.1) := by
  induction h with
  | nil => rfl
  | cons hp _ ih => rw [List.map_cons, List.map_cons, ih, hp.1]

theorem exists_undone (move : Bool) (tree : FileTree) (planned : List PlannedFile) :
    ∃ undone, planned.map (·.source) = (files move tree planned).done.map (·.1) ++ undone := by
  obtain ⟨dealt, undone, he, hd, _⟩ := exists_dealt move tree planned
  refine ⟨undone.map (·.source), ?_⟩
  rw [← sources_of_dealt hd, ← List.map_append, ← he]

/-- The first part of a run: directories are made, and no file is dealt with. -/
def prepared (tree : FileTree) (plan : Plan) : Transfer :=
  directories tree (fun after => ⟨after, [], [], none⟩) (Text.sorted plan.newDirectories)

/-- What is made of directories does not hang on what comes after them. -/
theorem directories_eq (tree : FileTree) (next : FileTree → Transfer) (paths : List Text) :
    let first := directories tree (fun after => ⟨after, [], [], none⟩) paths
    first.done = [] ∧
      directories tree next paths =
        if first.fault = none then (next first.tree).behind first.entries [] else first := by
  induction paths generalizing tree with
  | nil => exact ⟨rfl, rfl⟩
  | cons path paths ih =>
    simp only [directories]
    split
    · exact ih tree
    · split
      · exact ⟨rfl, rfl⟩
      · obtain ⟨hd, he⟩ := ih (tree.makeDirectories true path).tree
        refine ⟨by rw [done_behind, hd, List.append_nil], ?_⟩
        rw [he, fault_behind]
        split
        · rw [behind_behind, List.append_nil]
          rfl
        · rfl

theorem done_prepared (tree : FileTree) (plan : Plan) : (prepared tree plan).done = [] :=
  (directories_eq tree (fun after => ⟨after, [], [], none⟩) _).1

/-- A run deals with its files behind the first part, if that comes through. -/
theorem ofPlan_eq (move : Bool) (tree : FileTree) (plan : Plan) :
    ofPlan move tree plan =
      if (prepared tree plan).fault = none then
        (files move (prepared tree plan).tree plan.files).behind (prepared tree plan).entries []
      else prepared tree plan :=
  (directories_eq tree (fun after => files move after plan.files) _).2

/-- Directories are made one after the other. -/
theorem directories_cons_of_done (next : FileTree → Transfer) {path : Text} (paths : List Text)
    (hd : tree.isDirectory path = false) (hm : tree.makeDirectories true path = ⟨after, none⟩) :
    ∃ entries, directories tree next (path :: paths) =
      (directories after next paths).behind entries [] := by
  rw [directories]
  simp only [hd, hm, Bool.false_eq_true, if_false]
  exact ⟨_, rfl⟩

/-- A run ends at the first directory that cannot be made. -/
theorem directories_cons_of_fault (next : FileTree → Transfer) {path : Text} (paths : List Text)
    (hd : tree.isDirectory path = false) {fault : FileFault}
    (hm : tree.makeDirectories true path = ⟨after, some fault⟩) :
    ∃ entries fault, directories tree next (path :: paths) = ⟨after, entries, [], some fault⟩ := by
  rw [directories]
  simp only [hd, hm, Bool.false_eq_true, if_false]
  exact ⟨_, _, rfl⟩

/-- What holds of making each directory holds of the first part of a run. -/
theorem making_prepared {may : Text → Prop} {R : FileTree → FileTree → Prop}
    (m : FileTree.Making may R) (hp : tree.Plain) {plan : Plan} (h : ∀ d ∈ plan.newDirectories, may d) :
    R tree (prepared tree plan).tree := by
  have run (paths : List Text) (hpaths : ∀ path ∈ paths, may path) {t : FileTree} (ht : t.Plain) :
      R t (directories t (fun after => ⟨after, [], [], none⟩) paths).tree := by
    induction paths generalizing t with
    | nil => exact m.refl ht
    | cons path paths ih =>
      have hrest : ∀ other ∈ paths, may other := fun other ho => hpaths other (by simp [ho])
      rw [directories]
      split
      · exact ih hrest ht
      · have hg := m.makeDirectories ht true (hpaths path (by simp))
        dsimp only
        split
        · exact hg
        · exact m.trans hg (ih hrest (m.plain hg))
  exact run _ (fun path hm => h path (Text.mem_sorted.mp hm)) hp

/-- The first part of a run only adds directories. -/
theorem grows_prepared (hp : tree.Plain) (plan : Plan) : tree.Grows (prepared tree plan).tree :=
  making_prepared FileTree.Grows.making hp fun _ _ => trivial

/-- What a run has done is the first files of its plan, each at one of the paths that are tried for it. -/
theorem exists_dealt_ofPlan (move : Bool) (tree : FileTree) (plan : Plan) :
    ∃ dealt undone, plan.files = dealt ++ undone ∧
      List.Forall₂ (fun f p => p.1 = f.source ∧ p.2 ∈ candidates f.target) dealt
        (ofPlan move tree plan).done ∧
      ((ofPlan move tree plan).fault = none → undone = []) := by
  rw [ofPlan_eq]
  split
  · obtain ⟨dealt, undone, he, hd, hf⟩ := exists_dealt move (prepared tree plan).tree plan.files
    rw [done_behind, fault_behind, List.nil_append]
    exact ⟨dealt, undone, he, hd, hf.mp⟩
  · rename_i hfault
    rw [done_prepared]
    exact ⟨[], plan.files, rfl, .nil, fun hnone => absurd hnone hfault⟩

theorem exists_undone_ofPlan (move : Bool) (tree : FileTree) (plan : Plan) :
    ∃ undone, plan.files.map (·.source) = (ofPlan move tree plan).done.map (·.1) ++ undone ∧
      ((ofPlan move tree plan).fault = none → undone = []) := by
  obtain ⟨dealt, undone, he, hd, hf⟩ := exists_dealt_ofPlan move tree plan
  refine ⟨undone.map (·.source), ?_, fun hnone => by rw [hf hnone, List.map_nil]⟩
  rw [← sources_of_dealt hd, ← List.map_append, ← he]

end PhotoNaming.Transfer
