import PhotoNaming.Proofs.FileTree.Effect
import PhotoNaming.Proofs.FileTree.Following
import PhotoNaming.Proofs.Path.Directory

/-! What stays where it is when a tree with links changes. Making directories, and copying or moving to a
path without an entry of its own, puts new entries at free places only. -/
namespace PhotoNaming

namespace FileTree

/-- A path has an entry of its own. A link at its end is one, wherever it leads. -/
def isTaken (tree : FileTree) (path : Text) : Bool :=
  match tree.locate false path with
  | .ok (.found ..) => true
  | _ => false

/-- A path ends in a link that leads to no entry. -/
def isLost (tree : FileTree) (path : Text) : Bool :=
  (tree.linkTarget? path).isSome && !tree.exists? path

/-- The same entries, and more of them at places that had none. -/
def Extends (tree after : FileTree) : Prop :=
  ∃ more, after = tree.extended more ∧ ∀ e ∈ more, tree.lookup? e.1 = none

/-- An entry is at a place, and above it up to the root. -/
def Stands (tree : FileTree) (place : Location) : Prop :=
  ∀ above, above <+: place → ∃ entry, tree.lookup? above = some entry

variable {tree after : FileTree} {path source target : Text} {place old new q : Location} {entry : Entry}
  {links : Nat} {todo : List Text} {follow : Bool}

theorem WellFormed.stands (hw : tree.WellFormed) (h : tree.lookup? place = some entry) :
    tree.Stands place := by
  rintro above ⟨rest, rfl⟩
  by_cases hr : rest = []
  · exact ⟨entry, by rw [← h, hr, List.append_nil]⟩
  · exact ⟨.directory, hw.lookup?_append hr h⟩

/-- A free place is not above one where an entry stands. -/
theorem Stands.not_below (h : tree.Stands place) (hn : tree.lookup? new = none) : ¬ new <+: place := by
  intro hp
  obtain ⟨entry, he⟩ := h new hp
  rw [he] at hn
  cases hn

/-! ### Following links -/

/-- Where a path leads is the same whether a link at its end is followed or not, unless it ends in one. -/
theorem lead_eq_or_link (tree : FileTree) (links : Nat) (place : Location) (todo : List Text) :
    tree.lead false links place todo = tree.lead true links place todo ∨
      ∃ q target, tree.lead false links place todo = .ok (.found q (.link target)) := by
  fun_induction tree.lead true links place todo <;> rw [lead] <;> grind

theorem lead_slack (tree : FileTree) (follow : Bool) (links : Nat) (place : Location)
    {slack : List Text} (hs : ∀ part ∈ slack, part = []) :
    tree.lead follow links place slack = .ok (.found place .directory) := by
  have h : tree.lead follow links place (slack ++ []) = tree.lead follow links place [] :=
    lead_slack_append (fun part hp => .inl (hs part hp)) follow links []
  rw [← List.append_nil slack, h, lead]

theorem lookup?_of_lead_free (h : tree.lead follow links place todo = .ok (.free q)) :
    tree.lookup? q = none := by
  fun_induction tree.lead follow links place todo <;> simp_all

/-- What a path leads to it leads to among more entries, too. -/
theorem lead_extended (more : List (Location × Entry))
    (h : tree.lead follow links place todo = .ok (.found q entry)) :
    (tree.extended more).lead follow links place todo = .ok (.found q entry) := by
  fun_induction tree.lead follow links place todo <;> rw [lead] <;> grind [lookup?_extended_of_some]

/-- A directory made at the free place where a path comes out is what the path leads to then. -/
theorem lead_inserted (h : tree.lead follow links place todo = .ok (.free q)) {slack : List Text}
    (hs : ∀ part ∈ slack, part = []) :
    (tree.inserted q .directory).lead true links place (todo ++ slack) = .ok (.found q .directory) := by
  have hn := lookup?_of_lead_free h
  have hnew : (tree.inserted q .directory).lookup? q = some .directory := by
    rw [lookup?_inserted (ne_nil_of_lookup?_none hn) hn, if_pos rfl]
  have hkept {p : Location} {found : Entry} (hf : tree.lookup? p = some found) :
      (tree.inserted q .directory).lookup? p = some found := lookup?_inserted_of_some hf
  have hend (links : Nat) := (tree.inserted q .directory).lead_slack true links q hs
  fun_induction tree.lead follow links place todo
  case case1 => cases h
  all_goals
    rw [List.cons_append, lead]
    grind

theorem lookup?_of_locate_free (h : tree.locate follow path = .ok (.free q)) : tree.lookup? q = none := by
  rw [(isPath_of_locate h).locate_eq] at h
  exact lookup?_of_lead_free h

theorem locate_eq_or_link (tree : FileTree) (path : Text) :
    tree.locate false path = tree.locate true path ∨
      ∃ q target, tree.locate false path = .ok (.found q (.link target)) := by
  unfold locate
  split_ifs
  · exact .inl rfl
  · exact .inl rfl
  · exact .inl rfl
  · exact lead_eq_or_link tree _ _ _
  · exact lead_eq_or_link tree _ _ _

/-- What is at the end of a path is an entry that the path leads to, or a link that leads to none. -/
theorem isTaken_eq (tree : FileTree) (path : Text) :
    tree.isTaken path = (tree.exists? path || tree.isLost path) := by
  rcases locate_eq_or_link tree path with h | ⟨q, target, h⟩
  · rw [isTaken, isLost, linkTarget?, exists?, entryAt, h]
    rcases tree.locate true path with refusal | ⟨q, entry⟩ | q <;> rfl
  · rw [isTaken, isLost, linkTarget?, h]
    simp

theorem locate_false_of_entryAt (hl : tree.linkTarget? path = none)
    (h : tree.entryAt path = .ok (q, entry)) : tree.locate false path = .ok (.found q entry) := by
  rcases locate_eq_or_link tree path with he | ⟨q, target, he⟩
  · rw [he, locate_of_entryAt h]
  · rw [linkTarget?, he] at hl
    cases hl

/-- A path without an entry of its own comes out at a free place, or nowhere. -/
theorem free_of_not_isTaken (h : tree.isTaken path = false) :
    (∃ q, tree.lookup? q = none ∧ ∀ follow, tree.locate follow path = .ok (.free q)) ∨
      ∃ refusal, ∀ follow, tree.locate follow path = .error refusal := by
  have hsame : tree.locate true path = tree.locate false path := by
    rcases locate_eq_or_link tree path with he | ⟨q, target, he⟩
    · exact he.symm
    · rw [isTaken, he] at h
      cases h
  have hall {result : Except Refusal Destination} (hr : tree.locate false path = result)
      (follow : Bool) : tree.locate follow path = result := by
    cases follow with
    | false => exact hr
    | true => rw [hsame, hr]
  rw [isTaken] at h
  split at h
  · cases h
  · rename_i hne
    cases hl : tree.locate false path with
    | error refusal => exact .inr ⟨refusal, hall hl⟩
    | ok d =>
      cases d with
      | found q entry => exact absurd hl (hne q entry)
      | free q => exact .inl ⟨q, lookup?_of_locate_free hl, hall hl⟩

theorem isLost_of_exists? (h : tree.exists? path = true) : tree.isLost path = false := by
  rw [isLost, h, Bool.not_true, Bool.and_false]

theorem isLost_name {name : Text} (hn : IsEntryName name)
    (hl : ∀ target, tree.lookup? (tree.working ++ [name]) ≠ some (.link target)) :
    tree.isLost name = false := by
  have hnone : tree.linkTarget? name = none := by
    rw [linkTarget?, locate_name hn hl, destination]
    cases he : tree.lookup? (tree.working ++ [name]) with
    | none => rfl
    | some entry =>
      cases entry with
      | directory | file data | special accessed => rfl
      | link target => exact absurd he (hl target)
  rw [isLost, hnone]
  rfl

/-! ### More entries -/

namespace Extends

theorem refl (tree : FileTree) : tree.Extends tree := ⟨[], by simp, by simp⟩

theorem inserted (hn : tree.lookup? place = none) (entry : Entry) :
    tree.Extends (tree.inserted place entry) :=
  ⟨[(place, entry)], rfl, by simpa using hn⟩

theorem lookup? (h : tree.Extends after) (hp : tree.lookup? place = some entry) :
    after.lookup? place = some entry := by
  obtain ⟨more, rfl, _⟩ := h
  exact lookup?_extended_of_some more hp

theorem none_of_none (h : tree.Extends after) (hn : after.lookup? place = none) :
    tree.lookup? place = none := by
  cases hp : tree.lookup? place with
  | none => rfl
  | some entry =>
    rw [h.lookup? hp] at hn
    cases hn

theorem trans {a b c : FileTree} (h : a.Extends b) (h' : b.Extends c) : a.Extends c := by
  obtain ⟨more, rfl, hm⟩ := id h
  obtain ⟨others, rfl, ho⟩ := h'
  refine ⟨more ++ others, extended_extended a more others, ?_⟩
  intro e he
  rcases List.mem_append.mp he with he | he
  · exact hm e he
  · exact h.none_of_none (ho e he)

theorem stands (h : tree.Extends after) (hp : tree.Stands place) : after.Stands place := by
  intro above ha
  obtain ⟨entry, he⟩ := hp above ha
  exact ⟨entry, h.lookup? he⟩

theorem lookup?_of_stands (h : tree.Extends after) (hp : tree.Stands place) :
    after.lookup? place = tree.lookup? place := by
  obtain ⟨entry, he⟩ := hp place List.prefix_rfl
  rw [he, h.lookup? he]

theorem locate (h : tree.Extends after) (hl : tree.locate follow path = .ok (.found q entry)) :
    after.locate follow path = .ok (.found q entry) := by
  obtain ⟨more, rfl, _⟩ := h
  have hi := isPath_of_locate hl
  rw [hi.locate_eq] at hl ⊢
  exact lead_extended more hl

theorem entryAt (h : tree.Extends after) (he : tree.entryAt path = .ok (place, entry)) :
    after.entryAt path = .ok (place, entry) := by
  rw [FileTree.entryAt, h.locate (locate_of_entryAt he)]

theorem isDirectory (h : tree.Extends after) (hd : tree.isDirectory path = true) :
    after.isDirectory path = true := by
  obtain ⟨place, he⟩ := isDirectory_iff_entryAt.mp hd
  exact isDirectory_iff_entryAt.mpr ⟨place, h.entryAt he⟩

theorem andThen {change : Change} {next : FileTree → Change} (h : tree.Extends change.tree)
    (hn : ∀ t : FileTree, t.Extends (next t).tree) : tree.Extends (change.andThen next).tree := by
  unfold Change.andThen
  split
  · exact h
  · exact h.trans (hn _)

theorem makeDirectory (tree : FileTree) (path : Text) : tree.Extends (tree.makeDirectory path).tree := by
  unfold FileTree.makeDirectory
  split
  · exact refl tree
  · split
    · rename_i hl
      exact inserted (lookup?_of_locate_free hl) _
    · exact refl tree
    · exact refl tree

theorem makeAbove (tree : FileTree) (path : Text) : tree.Extends (tree.makeAbove path).tree := by
  unfold FileTree.makeAbove
  split
  · exact refl tree
  · split
    · exact refl tree
    · exact makeDirectory tree path

theorem makeAllAbove (tree : FileTree) (paths : List Text) :
    tree.Extends (tree.makeAllAbove paths).tree := by
  induction paths generalizing tree with
  | nil => exact refl tree
  | cons path paths ih => exact andThen (makeAbove tree path) ih

theorem makeDirectories (tree : FileTree) (reuse : Bool) (path : Text) :
    tree.Extends (tree.makeDirectories reuse path).tree := by
  apply andThen (makeAllAbove tree _)
  intro t
  split
  · exact refl t
  · exact makeDirectory t path

end Extends

/-- A path that has just been made leads to a place that was free. -/
theorem locate_of_makeDirectory (h : (tree.makeDirectory path).fault = none) :
    ∃ q, tree.lookup? q = none ∧
      (tree.makeDirectory path).tree.locate true path = .ok (.found q .directory) := by
  unfold makeDirectory at h ⊢
  split at h
  · cases h
  · rename_i hlong
    split at h
    · rename_i q hl
      have hb := isPath_of_locate hl
      obtain ⟨slashes, hs, he⟩ := Path.exists_slashes_bare path
      have hne : path ≠ [] := by
        rintro rfl
        exact hb.ne_nil rfl
      have hi : IsPath path := by
        refine ⟨?_, hne, Nat.le_of_not_lt hlong⟩
        rw [he, List.mem_append, not_or]
        exact ⟨hb.no_null, fun hm => absurd (hs _ hm) (by decide)⟩
      obtain ⟨slack, hslack, hparts⟩ := Path.exists_parts_append_slashes (Path.bare path) hs
      rw [← he] at hparts
      have hstart : (tree.inserted q .directory).start path = tree.start (Path.bare path) := by
        rw [start, start, Path.isAbsolute_bare hne]
        rfl
      refine ⟨q, lookup?_of_locate_free hl, ?_⟩
      rw [hb.locate_eq] at hl
      rw [if_neg hlong]
      dsimp only
      rw [hi.locate_eq, hstart, hparts]
      exact lead_inserted hl hslack
    · cases h
    · cases h

theorem locate_of_makeDirectories (h : (tree.makeDirectories false path).fault = none) :
    ∃ q, tree.lookup? q = none ∧
      (tree.makeDirectories false path).tree.locate true path = .ok (.found q .directory) := by
  have habove := Extends.makeAllAbove tree (Path.above path)
  unfold makeDirectories Change.andThen at h ⊢
  split at h
  · rename_i hsome
    rw [hsome] at h
    cases h
  · simp only [Bool.false_eq_true, false_and, if_false] at h ⊢
    obtain ⟨q, hn, hl⟩ := locate_of_makeDirectory h
    exact ⟨q, habove.none_of_none hn, hl⟩

/-- What could be made is there. -/
theorem isDirectory_makeDirectories (h : (tree.makeDirectories true path).fault = none) :
    (tree.makeDirectories true path).tree.isDirectory path = true := by
  unfold makeDirectories Change.andThen at h ⊢
  split at h
  · rename_i hsome
    rw [hsome] at h
    cases h
  · dsimp only at h ⊢
    split at h
    · rename_i hd
      rw [if_pos hd]
      exact hd.2
    · rename_i hd
      rw [if_neg hd]
      obtain ⟨q, _, hl⟩ := locate_of_makeDirectory h
      rw [FileTree.isDirectory, FileTree.entryAt, hl]

/-! ### Moving entries -/

theorem lookup?_relocated_of_apart (ho : ¬ old <+: place) (hn : ¬ new <+: place) :
    (tree.relocated old new).lookup? place = tree.lookup? place := by
  have hmoved (e : Location × Entry) (hk : ¬ new <+: e.1) :
      (if old.isPrefixOf e.1 then new ++ e.1.drop old.length else e.1) = place ↔ e.1 = place := by
    split
    · rename_i hp
      rw [List.isPrefixOf_iff_prefix] at hp
      constructor
      · rintro rfl
        exact absurd (List.prefix_append _ _) hn
      · rintro rfl
        exact absurd hp ho
    · rfl
  unfold relocated
  split
  · rfl
  · rw [lookup?, lookup?, removed]
    congr 1
    dsimp only
    induction tree.entries with
    | nil => rfl
    | cons e rest ih =>
      by_cases hk : new <+: e.1
      · have hne : e.1 ≠ place := by
          rintro rfl
          exact hn hk
        rw [List.filter_cons_of_neg (by simpa [List.isPrefixOf_iff_prefix] using hk),
          List.find?_cons_of_neg (by simpa using hne), ih]
      · have hk' : new.isPrefixOf e.1 = false := by
          rw [Bool.eq_false_iff, Ne, List.isPrefixOf_iff_prefix]
          exact hk
        rw [List.filter_cons_of_pos (by rw [hk']; rfl), List.map_cons,
          List.find?_cons, List.find?_cons]
        simp only [hmoved e hk]
        by_cases he : e.1 = place
        · simp [he]
        · simp only [he, decide_false]
          exact ih

/-- Copying to a path without an entry of its own adds at most one entry. -/
theorem extends_copy (h : tree.isTaken target = false) :
    tree.Extends (tree.copy source target).tree := by
  unfold copy
  split
  · rw [writeFile]
    rcases free_of_not_isTaken h with ⟨q, hn, hl⟩ | ⟨refusal, hl⟩
    · rw [hl]
      exact .inserted hn _
    · rw [hl]
      exact .refl tree
  · exact .refl tree

theorem exists_of_rename (h : tree.rename source target = .ok after) :
    ∃ old entry new, tree.locate false source = .ok (.found old entry) ∧
      (tree.locate false target = .ok (.free new) ∨
        ∃ found, tree.locate false target = .ok (.found new found)) ∧
      after = tree.relocated old new := by
  unfold rename at h
  cases hs : tree.locate false source with
  | error refusal =>
    rw [hs] at h
    cases h
  | ok origin =>
    cases hl : tree.locate false target with
    | error refusal =>
      rw [hs, hl] at h
      cases h
    | ok destination =>
      rw [hs, hl] at h
      simp only [bind, Except.bind, pure, Except.pure] at h
      split at h
      · cases h
      · cases h
      · rename_i old new
        split_ifs at h
        exact ⟨old, .directory, new, rfl, .inl rfl, (Except.ok.inj h).symm⟩
      · cases h
      · rename_i old entry new _
        exact ⟨old, entry, new, rfl, .inl rfl, (Except.ok.inj h).symm⟩
      · rename_i old entry new found _ _
        exact ⟨old, entry, new, rfl, .inr ⟨found, rfl⟩, (Except.ok.inj h).symm⟩

/-- What is no directory can be given any path that comes out at a free place. -/
theorem rename_of_free (hs : tree.locate false source = .ok (.found old entry))
    (he : entry ≠ .directory) (hl : tree.locate false target = .ok (.free new)) :
    tree.rename source target = .ok (tree.relocated old new) := by
  unfold rename
  rw [hs, hl]
  cases entry with
  | directory => exact absurd rfl he
  | file data | special accessed | link destination => rfl

/-- A tree in which an entry may have been taken from where a path leads to a place that was free. -/
def Spares (tree : FileTree) (source : Text) (after : FileTree) : Prop :=
  ∃ made, tree.Extends made ∧ (after = made ∨
    ∃ old entry new, tree.locate false source = .ok (.found old entry) ∧ tree.lookup? new = none ∧
      after = made.relocated old new)

namespace Spares

theorem of_extends (h : tree.Extends after) : tree.Spares source after := ⟨after, h, .inl rfl⟩

theorem lookup? (h : tree.Spares source after) (hp : tree.Stands place)
    (ho : ∀ old entry, tree.locate false source = .ok (.found old entry) → ¬ old <+: place) :
    after.lookup? place = tree.lookup? place := by
  obtain ⟨made, hm, rfl | ⟨old, entry, new, hl, hn, rfl⟩⟩ := h
  · exact hm.lookup?_of_stands hp
  · rw [lookup?_relocated_of_apart (ho old entry hl) (hp.not_below hn)]
    exact hm.lookup?_of_stands hp

theorem rebuild (hs : tree.locate false source = .ok (.found old .directory)) :
    tree.Spares source (tree.rebuild source target).tree := by
  have hs' : tree.locate true source = .ok (.found old .directory) := by
    rcases locate_eq_or_link tree source with he | ⟨q, link, he⟩
    · rw [← he, hs]
    · rw [hs] at he
      cases he
  have hm := Extends.makeDirectories tree false target
  rw [FileTree.rebuild]
  split
  · exact of_extends (.refl tree)
  · unfold Change.andThen
    split
    · exact of_extends hm
    · rename_i hnone
      obtain ⟨new, hn, hl⟩ := locate_of_makeDirectories hnone
      dsimp only
      rw [hm.locate hs', hl]
      exact ⟨_, hm, .inr ⟨old, .directory, new, hs, hn, rfl⟩⟩

theorem copy (h : tree.isTaken target = false) : tree.Spares source (tree.copy source target).tree :=
  of_extends (extends_copy h)

/-- What is renamed to a path without an entry of its own goes to the free place where that comes out. -/
theorem rename {made : FileTree} (h : tree.isTaken target = false)
    (hr : tree.rename source target = .ok made) : tree.Spares source made := by
  obtain ⟨old, entry, new, hs, hl, rfl⟩ := exists_of_rename hr
  rcases hl with hl | ⟨found, hl⟩
  · exact ⟨tree, .refl tree, .inr ⟨old, entry, new, hs, lookup?_of_locate_free hl, rfl⟩⟩
  · rw [isTaken, hl] at h
    cases h

/-- Moving to a path without an entry of its own takes what is moved to a place that was free. -/
theorem move (h : tree.isTaken target = false) : tree.Spares source (tree.move source target).tree := by
  rw [FileTree.move]
  split
  · rename_i hr
    exact rename h hr
  · rename_i refusal hr
    have hstuck {old : Location} {entry : Entry} (hs : tree.locate false source = .ok (.found old entry))
        (he : entry ≠ .directory) : ∃ refusal, ∀ follow, tree.locate follow target = .error refusal := by
      refine (free_of_not_isTaken h).resolve_left ?_
      rintro ⟨new, _, hl⟩
      rw [rename_of_free hs he (hl false)] at hr
      cases hr
    split
    · rename_i destination hlink
      rw [linkTarget?] at hlink
      split at hlink
      · rename_i old link hs
        obtain ⟨refusal, hl⟩ := hstuck hs (by simp)
        rw [relink, hl]
        exact of_extends (.refl tree)
      · cases hlink
    · rename_i hlink
      split
      · rename_i hd
        unfold isDirectory at hd
        split at hd
        · rename_i old he
          exact rebuild (locate_false_of_entryAt hlink he)
        · cases hd
      · have hfault : ∃ fault, tree.copy source target = ⟨tree, some fault⟩ := by
          rw [FileTree.copy]
          cases hread : tree.readFile source with
          | error fault => exact ⟨fault, rfl⟩
          | ok data =>
            obtain ⟨old, he⟩ := readFile_eq_ok_iff_entryAt.mp hread
            obtain ⟨refusal, hl⟩ := hstuck (locate_false_of_entryAt hlink he) (by simp)
            exact ⟨_, by simp only [writeFile, hl]; rfl⟩
        obtain ⟨fault, hc⟩ := hfault
        rw [hc]
        exact of_extends (.refl tree)

end Spares

end FileTree

end PhotoNaming
