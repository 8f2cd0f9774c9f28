import PhotoNaming.Proofs.FileTree.Sparing
import PhotoNaming.Proofs.Transfer.Steps
import Mathlib.Data.List.Find

/-! What a run leaves alone. The path it finds for a file has no entry of its own, except that a link that
leads nowhere counts as free, so a run that meets no such link writes over nothing. -/
namespace PhotoNaming

theorem length_candidates (target : Text) : (candidates target).length = maxSuffix + 1 := by
  rw [candidates, List.length_cons, List.length_map, List.length_range]

section FreeTarget

variable (tree : FileTree) (target : Text)

theorem freeTarget?_eq :
    freeTarget? tree target =
      (candidates target).find? fun c => !tree.isTaken c || tree.isLost c := by
  apply List.find?_congr
  intro c _
  rw [tree.isTaken_eq]
  by_cases hl : tree.isLost c = true
  · have he : tree.exists? c = false := by
      rw [FileTree.isLost, Bool.and_eq_true] at hl
      simpa using hl.2
    simp [he]
  · simp [hl]

variable {tree target}

theorem freeTarget?_of_not_lost (h : ∀ c ∈ candidates target, tree.isLost c = false) :
    freeTarget? tree target = (candidates target).find? (!tree.isTaken ·) := by
  rw [freeTarget?_eq]
  apply List.find?_congr
  intro c hc
  rw [h c hc, Bool.or_false]

end FreeTarget

namespace Transfer

/-- The same run, stopped before the file at `i`. -/
def stopped (move : Bool) (tree : FileTree) (plan : Plan) (i : Nat) : Transfer :=
  ofPlan move tree { plan with files := plan.files.take i }

/-- `P` holds of each file of a plan and the tree in which a run comes to it. -/
def Throughout (move : Bool) (tree : FileTree) (plan : Plan) (P : FileTree → PlannedFile → Prop) :
    Prop :=
  ∀ i f, plan.files[i]? = some f → (stopped move tree plan i).fault = none →
    P (stopped move tree plan i).tree f

variable {move : Bool} {tree after : FileTree} {source target : Text} {place : Location}
  {planned rest : List PlannedFile} {f : PlannedFile} {P : FileTree → PlannedFile → Prop}

/-- The same for files behind directories that are there. -/
private def Along (move : Bool) (tree : FileTree) (planned : List PlannedFile)
    (P : FileTree → PlannedFile → Prop) : Prop :=
  ∀ i f, planned[i]? = some f → (files move tree (planned.take i)).fault = none →
    P (files move tree (planned.take i)).tree f

namespace Along

theorem head (h : Along move tree (f :: rest) P) : P tree f := h 0 f rfl rfl

theorem tail (h : Along move tree (f :: rest) P) (ht : freeTarget? tree f.target = some target)
    (hc : carry move tree f.source target = ⟨after, none⟩) : Along move after rest P := by
  intro i g hg hf
  obtain ⟨entries, he⟩ := files_cons_of_done (rest.take i) ht hc
  have hstep := h (i + 1) g (by rw [List.getElem?_cons_succ, hg])
  rw [List.take_succ_cons, he, fault_behind, tree_behind] at hstep
  exact hstep hf

end Along

/-- The path that a file has been given was the one found for it when the run came to it. -/
theorem freeTarget?_of_done {i : Nat} {p : Text × Text} (hf : planned[i]? = some f)
    (hp : (files move tree planned).done[i]? = some p) :
    (files move tree (planned.take i)).fault = none ∧
      freeTarget? (files move tree (planned.take i)).tree f.target = some p.2 := by
  induction planned generalizing tree i with
  | nil => cases hf
  | cons g rest ih =>
    rw [files] at hp
    split at hp
    · cases hp
    · rename_i target ht
      dsimp only at hp
      split at hp
      · cases hp
      · rename_i hnone
        have hc : carry move tree g.source target = ⟨(carry move tree g.source target).tree, none⟩ := by
          rw [← hnone]
        cases i with
        | zero =>
          obtain rfl : g = f := Option.some.inj hf
          obtain rfl : (g.source, target) = p := Option.some.inj hp
          exact ⟨rfl, ht⟩
        | succ i =>
          obtain ⟨entries, he⟩ := files_cons_of_done (rest.take i) ht hc
          rw [List.take_succ_cons, he, fault_behind, tree_behind]
          exact ih hf hp

/-- An entry stays where it stands, unless what a path leads to is moved away from there or above. -/
theorem lookup?_carry (h : tree.isTaken target = false) (hp : tree.Stands place)
    (ho : move = true → ∀ old entry, tree.locate false source = .ok (.found old entry) → ¬ old <+: place) :
    (carry move tree source target).tree.lookup? place = tree.lookup? place := by
  unfold carry
  split
  · rename_i hmove
    exact (FileTree.Spares.move h).lookup? hp (ho hmove)
  · exact (FileTree.extends_copy h).lookup?_of_stands hp

/-- A run that meets no link that leads nowhere leaves the entries where they stand, but for those that it is
to move. -/
theorem lookup?_files (hl : Along move tree planned fun t f => ∀ c ∈ candidates f.target, t.isLost c = false)
    (hp : tree.Stands place)
    (ho : move = true → Along move tree planned fun t f =>
      ∀ old entry, t.locate false f.source = .ok (.found old entry) → ¬ old <+: place) :
    (files move tree planned).tree.lookup? place = tree.lookup? place := by
  induction planned generalizing tree with
  | nil => rfl
  | cons f rest ih =>
    rw [files]
    split
    · rfl
    · rename_i target ht
      have htaken : tree.isTaken target = false := by
        rw [freeTarget?_of_not_lost hl.head] at ht
        simpa using List.find?_some ht
      have hkeeps {above : Location} (ha : above <+: place) :
          (carry move tree f.source target).tree.lookup? above = tree.lookup? above :=
        lookup?_carry htaken (fun other hother => hp other (hother.trans ha)) fun hmove old entry hs hold =>
          (ho hmove).head old entry hs (hold.trans ha)
      dsimp only
      split
      · exact hkeeps List.prefix_rfl
      · rename_i hnone
        have hc : carry move tree f.source target = ⟨(carry move tree f.source target).tree, none⟩ := by
          rw [← hnone]
        rw [tree_behind, ih (hl.tail ht hc) ?_ fun hmove => (ho hmove).tail ht hc]
        · exact hkeeps List.prefix_rfl
        · intro above ha
          rw [hkeeps ha]
          exact hp above ha

/-- Making directories adds entries at free places. -/
theorem extends_directories (tree : FileTree) (paths : List Text) :
    tree.Extends (directories tree (fun after => ⟨after, [], [], none⟩) paths).tree := by
  induction paths generalizing tree with
  | nil => exact .refl tree
  | cons path paths ih =>
    rw [directories]
    split
    · exact ih tree
    · have hm := FileTree.Extends.makeDirectories tree true path
      dsimp only
      split
      · exact hm
      · exact hm.trans (ih _)

/-- The paths that are tried for a photo are a hundred, and the first is taken that has no entry of its own or
is a link that leads nowhere. So the path found is free, and none is found only if all are taken, unless there
are such links among them. A run that meets none writes to paths without an entry of their own, and leaves
every entry where it stands but for those that it is to move. -/
theorem free_paths_are_untaken (move : Bool) (tree : FileTree) (plan : Plan) (target : Text) :
    (candidates target).length = 100 ∧
    freeTarget? tree target =
      (candidates target).find? (fun c => !tree.isTaken c || tree.isLost c) ∧
    ((∀ c ∈ candidates target, tree.isLost c = false) →
      freeTarget? tree target = (candidates target).find? (!tree.isTaken ·) ∧
      (freeTarget? tree target = none ↔ ∀ c ∈ candidates target, tree.isTaken c = true)) ∧
    ((Throughout move tree plan fun t f => ∀ c ∈ candidates f.target, t.isLost c = false) →
      (∀ (i : Nat) (f : PlannedFile) (p : Text × Text), plan.files[i]? = some f →
        (ofPlan move tree plan).done[i]? = some p →
        (stopped move tree plan i).tree.isTaken p.2 = false) ∧
      ∀ place, tree.Stands place →
        (move = true → Throughout move tree plan fun t f =>
          ∀ old entry, t.locate false f.source = .ok (.found old entry) → ¬ old <+: place) →
        (ofPlan move tree plan).tree.lookup? place = tree.lookup? place) := by
  refine ⟨length_candidates target, freeTarget?_eq tree target, ?_, ?_⟩
  · intro hl
    have he := freeTarget?_of_not_lost hl
    refine ⟨he, ?_⟩
    rw [he, List.find?_eq_none]
    simp
  · intro hl
    have hextends : tree.Extends (prepared tree plan).tree := extends_directories tree _
    rw [ofPlan_eq]
    split
    · rename_i hnone
      have hstopped (i : Nat) : stopped move tree plan i =
          (files move (prepared tree plan).tree (plan.files.take i)).behind
            (prepared tree plan).entries [] :=
        (ofPlan_eq move tree { plan with files := plan.files.take i }).trans (if_pos hnone)
      have halong {P : FileTree → PlannedFile → Prop} (hp : Throughout move tree plan P) :
          Along move (prepared tree plan).tree plan.files P := by
        intro i f hf hdone
        have hstep := hp i f hf
        rw [hstopped, fault_behind, tree_behind] at hstep
        exact hstep hdone
      constructor
      · intro i f p hf hp
        rw [done_behind, List.nil_append] at hp
        obtain ⟨hdone, ht⟩ := freeTarget?_of_done hf hp
        rw [hstopped, tree_behind]
        rw [freeTarget?_of_not_lost (halong hl i f hf hdone)] at ht
        simpa using List.find?_some ht
      · intro place hp ho
        rw [tree_behind, lookup?_files (halong hl) (hextends.stands hp) fun hmove => halong (ho hmove)]
        exact hextends.lookup?_of_stands hp
    · constructor
      · intro i f p _ hp
        rw [done_prepared] at hp
        cases hp
      · intro place hp _
        exact hextends.lookup?_of_stands hp

/-- One photo, and the path it is to have. -/
private def onePlanned : PlannedFile := ⟨"a.jpg", "p_1.jpg"⟩

/-- The photo, a link to it, and another photo in the way. -/
private def linked : FileTree where
  entries := [(["a.jpg"], .file (.ofText ['a'] 0)), (["p_1.jpg"], .link "a.jpg"),
    (["p_1(01).jpg"], .file (.ofText ['b'] 0))]
  working := []

private theorem throughout_single (h : P tree f) : Throughout move tree ⟨[f], []⟩ P := by
  intro i g hg _
  cases i with
  | zero =>
    have hstart : stopped move tree ⟨[f], []⟩ 0 = ⟨tree, [], [], none⟩ := by
      simp [stopped, ofPlan, Text.sorted, directories, files]
    rw [hstart, ← Option.some.inj hg]
    exact h
  | succ i => cases hg

private theorem ofPlan_single (ht : freeTarget? tree f.target = some target)
    (hc : carry move tree f.source target = ⟨after, none⟩) :
    (ofPlan move tree ⟨[f], []⟩).tree = after ∧ (ofPlan move tree ⟨[f], []⟩).done = [(f.source, target)] := by
  have hrun : ofPlan move tree ⟨[f], []⟩ = files move tree [f] := by
    simp [ofPlan, Text.sorted, directories]
  obtain ⟨entries, he⟩ := files_cons_of_done [] ht hc
  rw [hrun, he]
  exact ⟨rfl, rfl⟩

private theorem exists?_linked :
    linked.exists? "p_1.jpg" = true ∧ linked.exists? "p_1(01).jpg" = true ∧
      linked.exists? "p_1(02).jpg" = false := by
  have hlink : linked.locate true "p_1.jpg" = .ok (linked.destination ["a.jpg".toList]) :=
    FileTree.locate_linked (by decide) rfl (by decide) (by rintro _ ⟨⟩)
  have hfile : linked.locate true "p_1(01).jpg" = .ok (linked.destination ["p_1(01).jpg".toList]) :=
    FileTree.locate_name (by decide) (by rintro _ ⟨⟩) true
  have hfree : linked.locate true "p_1(02).jpg" = .ok (linked.destination ["p_1(02).jpg".toList]) :=
    FileTree.locate_name (by decide) (by rintro _ ⟨⟩) true
  refine ⟨?_, ?_, ?_⟩
  · rw [FileTree.exists?, FileTree.entryAt, hlink]
    rfl
  · rw [FileTree.exists?, FileTree.entryAt, hfile]
    rfl
  · rw [FileTree.exists?, FileTree.entryAt, hfree]
    rfl

theorem link_in_the_way_stays :
    (Throughout true linked ⟨[onePlanned], []⟩ fun t f => ∀ c ∈ candidates f.target, t.isLost c = false) ∧
      (ofPlan true linked ⟨[onePlanned], []⟩).done = [("a.jpg".toList, "p_1(02).jpg".toList)] ∧
      (ofPlan true linked ⟨[onePlanned], []⟩).tree.lookup? ["p_1.jpg".toList] =
        some (.link "a.jpg".toList) := by
  have hall : Throughout true linked ⟨[onePlanned], []⟩ fun t f =>
      ∀ c ∈ candidates f.target, t.isLost c = false := by
    apply throughout_single
    intro c hc
    by_cases he : c = "p_1.jpg".toList
    · rw [he]
      exact FileTree.isLost_of_exists? exists?_linked.1
    · have hnames : ∀ c ∈ candidates onePlanned.target, FileTree.IsEntryName c := by decide +kernel
      refine FileTree.isLost_name (hnames c hc) fun target hl => ?_
      have hm := FileTree.mem_entries_of_lookup? (by simp) hl
      simp only [linked, List.nil_append, List.mem_cons, Prod.mk.injEq, List.cons.injEq, and_true,
        reduceCtorEq, and_false, List.not_mem_nil, or_false, false_or] at hm
      exact he hm.1
  have hsource : linked.locate false onePlanned.source =
      .ok (.found ["a.jpg".toList] (.file (.ofText ['a'] 0))) :=
    FileTree.locate_name (by decide) (by rintro _ ⟨⟩) false
  have htarget : linked.locate false "p_1(02).jpg" = .ok (.free ["p_1(02).jpg".toList]) :=
    FileTree.locate_name (by decide) (by rintro _ ⟨⟩) false
  have hlink : linked.lookup? ["p_1.jpg".toList] = some (.link "a.jpg".toList) := rfl
  have hwell : linked.WellFormed := by decide
  obtain ⟨hfirst, hsecond, hthird⟩ := exists?_linked
  have hfree : freeTarget? linked "p_1.jpg" = some "p_1(02).jpg".toList := by
    have htried : candidates "p_1.jpg" = "p_1.jpg".toList :: "p_1(01).jpg".toList ::
        "p_1(02).jpg".toList :: (candidates "p_1.jpg").drop 3 := by decide +kernel
    rw [freeTarget?, htried, List.find?_cons_of_neg (by rw [hfirst]; decide),
      List.find?_cons_of_neg (by rw [hsecond]; decide), List.find?_cons_of_pos (by rw [hthird]; decide)]
  have hmove : carry true linked "a.jpg" "p_1(02).jpg" =
      ⟨linked.relocated ["a.jpg".toList] ["p_1(02).jpg".toList], none⟩ := by
    have hr : linked.rename "a.jpg" "p_1(02).jpg" =
        .ok (linked.relocated ["a.jpg".toList] ["p_1(02).jpg".toList]) :=
      FileTree.rename_of_free hsource (by simp) htarget
    rw [carry, if_pos rfl, FileTree.move, hr]
  refine ⟨hall, (ofPlan_single (f := onePlanned) hfree hmove).2, ?_⟩
  rw [← hlink]
  apply ((free_paths_are_untaken true linked ⟨[onePlanned], []⟩ []).2.2.2 hall).2
  · exact hwell.stands hlink
  · intro _
    apply throughout_single
    intro old entry hs hp
    rw [hsource] at hs
    obtain ⟨rfl, _⟩ := FileTree.Destination.found.inj (Except.ok.inj hs)
    exact absurd hp (by decide)

/-- The photo, and a link that leads nowhere in its way. -/
private def lostLink : FileTree where
  entries := [(["a.jpg"], .file (.ofText ['a'] 0)), (["p_1.jpg"], .link "none")]
  working := []

/-- A link that leads nowhere counts as free: moving a photo there takes it away, and copying goes through it
to where it leads. -/
theorem lost_link_counts_as_free :
    lostLink.WellFormed ∧ lostLink.isTaken "p_1.jpg" = true ∧
      freeTarget? lostLink "p_1.jpg" = some "p_1.jpg".toList ∧
      (ofPlan true lostLink ⟨[onePlanned], []⟩).tree.lookup? ["p_1.jpg".toList] =
        some (.file (.ofText ['a'] 0)) ∧
      (ofPlan false lostLink ⟨[onePlanned], []⟩).tree.lookup? ["none".toList] =
        some (.file (.ofText ['a'] 0)) := by
  have hlink : lostLink.locate false "p_1.jpg" = .ok (.found ["p_1.jpg".toList] (.link "none".toList)) :=
    FileTree.locate_link (by decide) rfl
  have hled : lostLink.locate true "p_1.jpg" = .ok (lostLink.destination ["none".toList]) :=
    FileTree.locate_linked (by decide) rfl (by decide) (by rintro _ ⟨⟩)
  have hend : lostLink.locate true "p_1.jpg" = .ok (.free ["none".toList]) := hled
  have hsource (follow : Bool) : lostLink.locate follow "a.jpg" =
      .ok (.found ["a.jpg".toList] (.file (.ofText ['a'] 0))) :=
    FileTree.locate_name (by decide) (by rintro _ ⟨⟩) follow
  have hfree : freeTarget? lostLink "p_1.jpg" = some "p_1.jpg".toList := by
    rw [freeTarget?, candidates, List.find?_cons_of_pos]
    rw [FileTree.exists?, FileTree.entryAt, hend]
    rfl
  have hmove : carry true lostLink "a.jpg" "p_1.jpg" =
      ⟨lostLink.relocated ["a.jpg".toList] ["p_1.jpg".toList], none⟩ := by
    have hr : lostLink.rename "a.jpg" "p_1.jpg" =
        .ok (lostLink.relocated ["a.jpg".toList] ["p_1.jpg".toList]) := by
      rw [FileTree.rename, hsource, hlink]
      rfl
    rw [carry, if_pos rfl, FileTree.move, hr]
  have hcopy : carry false lostLink "a.jpg" "p_1.jpg" =
      ⟨lostLink.inserted ["none".toList] (.file (.ofText ['a'] 0)), none⟩ := by
    have hread : lostLink.readFile "a.jpg" = .ok (.ofText ['a'] 0) := by
      rw [FileTree.readFile, FileTree.entryAt, hsource]
    rw [carry, if_neg (by simp), FileTree.copy, hread]
    simp only [FileTree.writeFile, hend]
  refine ⟨by decide, ?_, hfree, ?_, ?_⟩
  · rw [FileTree.isTaken, hlink]
  · rw [(ofPlan_single (f := onePlanned) hfree hmove).1]
    rfl
  · rw [(ofPlan_single (f := onePlanned) hfree hcopy).1]
    rfl

end Transfer

end PhotoNaming
