import PhotoNaming.Proofs.FileTree.Lookup
import PhotoNaming.Proofs.Path.Components

/-! The ways of paths through trees without links. There a path is followed part by part, and where it
comes out stays the same as long as the directories on its way stay. -/
namespace PhotoNaming.FileTree

/-- A well-formed tree without links. -/
structure Plain (tree : FileTree) : Prop extends tree.WellFormed where
  linkFree : tree.LinkFree

instance (tree : FileTree) : Decidable tree.Plain :=
  decidable_of_iff (tree.WellFormed ∧ tree.LinkFree)
    ⟨fun h => ⟨h.1, h.2⟩, fun h => ⟨h.toWellFormed, h.linkFree⟩⟩

/-- Where the path parts `todo` come out from the directory at `place`, if there are no links. -/
def walk (tree : FileTree) (place : Location) : List Text → Except Refusal Destination
  | [] => .ok (.found place .directory)
  | part :: rest =>
    if part = [] ∨ part = ['.'] then walk tree place rest
    else if part = ['.', '.'] then walk tree place.dropLast rest
    else if maxNameBytes < byteCount part then .error .nameTooLong
    else
      match tree.lookup? (place ++ [part]) with
      | none => if rest = [] then .ok (.free (place ++ [part])) else .error .notFound
      | some .directory => walk tree (place ++ [part]) rest
      | some entry =>
        if rest = [] then .ok (.found (place ++ [part]) entry) else .error .notDirectory

theorem LinkFree.lead_eq_walk {tree : FileTree} (hl : tree.LinkFree) (follow : Bool) (links : Nat)
    (place : Location) (todo : List Text) :
    tree.lead follow links place todo = tree.walk place todo := by
  induction todo generalizing place with
  | nil => rw [lead, walk]
  | cons part rest ih =>
    rw [lead, walk, ih, ih]
    split
    · rfl
    · split
      · rfl
      · split
        · rfl
        · split
          · rename_i h
            simp only [h]
          · rename_i h
            simp only [h, ih]
          · rename_i h
            simp only [h]
          · rename_i h
            simp only [h]
          · rename_i h
            exact absurd h (hl.lookup?_ne_link _ _)

/-- What a path that comes out at a place leads to. -/
def destination (tree : FileTree) (place : Location) : Destination :=
  match tree.lookup? place with
  | some entry => .found place entry
  | none => .free place

theorem destination_of_lookup? {tree : FileTree} {place : Location} {entry : Entry}
    (h : tree.lookup? place = some entry) : tree.destination place = .found place entry := by
  rw [destination, h]

theorem destination_of_none {tree : FileTree} {place : Location}
    (h : tree.lookup? place = none) : tree.destination place = .free place := by
  rw [destination, h]

theorem destination_inj {tree : FileTree} {place other : Location}
    (h : tree.destination place = tree.destination other) : place = other := by
  unfold destination at h
  split at h <;> split at h <;> simp_all

/-- Directories stay directories, and relative paths start from the same place. -/
structure Keeps (tree after : FileTree) : Prop where
  directories : ∀ place, tree.lookup? place = some .directory →
    after.lookup? place = some .directory
  working : after.working = tree.working

theorem Keeps.refl (tree : FileTree) : tree.Keeps tree := ⟨fun _ h => h, rfl⟩

theorem Keeps.trans {a b c : FileTree} (h : a.Keeps b) (h' : b.Keeps c) : a.Keeps c :=
  ⟨fun place hp => h'.directories place (h.directories place hp), h'.working.trans h.working⟩

theorem keeps_extended (tree : FileTree) (more : List (Location × Entry)) :
    tree.Keeps (tree.extended more) :=
  ⟨fun _ h => lookup?_extended_of_some more h, rfl⟩

theorem keeps_inserted (tree : FileTree) (place : Location) (entry : Entry) :
    tree.Keeps (tree.inserted place entry) :=
  keeps_extended tree [(place, entry)]

/-- A part that is a name. -/
def Proceeds (part : Text) : Prop := part ≠ [] ∧ part ≠ ['.'] ∧ part ≠ ['.', '.']

instance (part : Text) : Decidable (Proceeds part) :=
  inferInstanceAs (Decidable (part ≠ [] ∧ part ≠ ['.'] ∧ part ≠ ['.', '.']))

variable {tree after : FileTree} {place : Location}

theorem walk_cons_directory {part : Text} (h : Proceeds part)
    (hs : byteCount part ≤ maxNameBytes) (hd : tree.lookup? (place ++ [part]) = some .directory)
    (rest : List Text) : tree.walk place (part :: rest) = tree.walk (place ++ [part]) rest := by
  rw [walk, if_neg (by simp [h.1, h.2.1]), if_neg h.2.2, if_neg (by omega), hd]

theorem walk_singleton {part : Text} (h : Proceeds part) (hs : byteCount part ≤ maxNameBytes) :
    tree.walk place [part] = .ok (tree.destination (place ++ [part])) := by
  rw [walk, if_neg (by simp [h.1, h.2.1]), if_neg h.2.2, if_neg (by omega), destination]
  split
  · rename_i hn
    simp [hn]
  · rename_i hn
    simp [hn, walk]
  · rename_i hn
    simp [hn]

/-- The ways on from a name: it is short, and a directory, or else the end. -/
theorem walk_cons_ok {part : Text} (h : Proceeds part) {rest : List Text} {d : Destination}
    (hw : tree.walk place (part :: rest) = .ok d) :
    byteCount part ≤ maxNameBytes ∧
      (tree.lookup? (place ++ [part]) = some .directory ∧
          tree.walk (place ++ [part]) rest = .ok d ∨
        rest = [] ∧ d = tree.destination (place ++ [part])) := by
  by_cases hs : byteCount part ≤ maxNameBytes
  · refine ⟨hs, ?_⟩
    by_cases hd : tree.lookup? (place ++ [part]) = some .directory
    · rw [walk_cons_directory h hs hd] at hw
      exact .inl ⟨hd, hw⟩
    · have hr : rest = [] := by
        rw [walk, if_neg (by simp [h.1, h.2.1]), if_neg h.2.2, if_neg (by omega)] at hw
        split at hw
        · exact (Decidable.em (rest = [])).elim id fun hr => by simp [hr] at hw
        · rename_i hn
          exact absurd hn hd
        · exact (Decidable.em (rest = [])).elim id fun hr => by simp [hr] at hw
      subst hr
      rw [walk_singleton h hs] at hw
      exact .inr ⟨rfl, (Except.ok.inj hw).symm⟩
  · rw [walk, if_neg (by simp [h.1, h.2.1]), if_neg h.2.2, if_pos (by omega)] at hw
    cases hw

/-- Every part stays, goes up, or is a name. -/
theorem part_cases (part : Text) :
    (part = [] ∨ part = ['.']) ∨ part = ['.', '.'] ∨ Proceeds part := by
  grind [Proceeds]

theorem walk_stay {part : Text} (h : part = [] ∨ part = ['.']) (rest : List Text) :
    tree.walk place (part :: rest) = tree.walk place rest := by
  rw [walk, if_pos h]

theorem walk_up (rest : List Text) :
    tree.walk place (['.', '.'] :: rest) = tree.walk place.dropLast rest := by
  rw [walk, if_neg (by decide), if_pos rfl]

/-- A path that comes out has no long part. -/
theorem short_of_walk {todo : List Text} {d : Destination} (h : tree.walk place todo = .ok d) :
    ∀ part ∈ todo, byteCount part ≤ maxNameBytes := by
  induction todo generalizing place with
  | nil => simp
  | cons part rest ih =>
    rcases part_cases part with hs | rfl | hn
    · rw [walk_stay hs] at h
      rw [List.forall_mem_cons]
      exact ⟨by rcases hs with rfl | rfl <;> decide, ih h⟩
    · rw [walk_up] at h
      rw [List.forall_mem_cons]
      exact ⟨by decide, ih h⟩
    · obtain ⟨hshort, ⟨_, hr⟩ | ⟨rfl, _⟩⟩ := walk_cons_ok hn h
      · exact List.forall_mem_cons.mpr ⟨hshort, ih hr⟩
      · simpa using hshort

/-- A path comes out at one place of a directory, and does so in every tree that keeps the
directories. -/
theorem WellFormed.walk_ok (hw : tree.WellFormed) {todo : List Text}
    (hp : tree.lookup? place = some .directory) {d : Destination}
    (h : tree.walk place todo = .ok d) :
    ∃ q, tree.lookup? q.dropLast = some .directory ∧
      ∀ after, tree.Keeps after → after.walk place todo = .ok (after.destination q) := by
  induction todo generalizing place with
  | nil =>
    exact ⟨place, hw.lookup?_dropLast hp, fun after hk => by
      rw [walk, destination_of_lookup? (hk.directories place hp)]⟩
  | cons part rest ih =>
    rcases part_cases part with hs | rfl | hn
    · rw [walk_stay hs] at h
      obtain ⟨q, ha, hq⟩ := ih hp h
      exact ⟨q, ha, fun after hk => by rw [walk_stay hs, hq after hk]⟩
    · rw [walk_up] at h
      obtain ⟨q, ha, hq⟩ := ih (hw.lookup?_dropLast hp) h
      exact ⟨q, ha, fun after hk => by rw [walk_up, hq after hk]⟩
    · obtain ⟨hs, ⟨hd, hr⟩ | ⟨rfl, _⟩⟩ := walk_cons_ok hn h
      · obtain ⟨q, ha, hq⟩ := ih hd hr
        exact ⟨q, ha, fun after hk => by
          rw [walk_cons_directory hn hs (hk.directories _ hd), hq after hk]⟩
      · exact ⟨place ++ [part], by rw [List.dropLast_concat, hp],
          fun after _ => walk_singleton hn hs⟩

/-- A way goes on where its first half comes out in a directory. -/
theorem walk_append {front back : List Text} {q : Location}
    (h : tree.walk place front = .ok (.found q .directory)) :
    tree.walk place (front ++ back) = tree.walk q back := by
  induction front generalizing place with
  | nil =>
    rw [walk] at h
    obtain ⟨rfl, _⟩ := Destination.found.inj (Except.ok.inj h)
    rfl
  | cons part front ih =>
    rw [List.cons_append]
    rcases part_cases part with hs | rfl | hn
    · rw [walk_stay hs] at h ⊢
      exact ih h
    · rw [walk_up] at h ⊢
      exact ih h
    · obtain ⟨hs, ⟨hd, hr⟩ | ⟨rfl, he⟩⟩ := walk_cons_ok hn h
      · rw [walk_cons_directory hn hs hd]
        exact ih hr
      · have hd : tree.lookup? (place ++ [part]) = some .directory := by
          unfold destination at he
          split at he
          · rename_i hf
            rw [hf, (Destination.found.inj he).2]
          · cases he
        rw [destination_of_lookup? hd] at he
        rw [walk_cons_directory hn hs hd, (Destination.found.inj he).1]
        rfl

/-- Only from a directory does a way go on. -/
theorem exists_walk_of_append {front back : List Text} {d : Destination}
    (h : tree.walk place (front ++ back) = .ok d)
    (hb : back ≠ [] ∨ ∃ q, d = .found q .directory) :
    ∃ q, tree.walk place front = .ok (.found q .directory) := by
  induction front generalizing place with
  | nil => exact ⟨place, rfl⟩
  | cons part front ih =>
    rw [List.cons_append] at h
    rcases part_cases part with hs | rfl | hn
    · rw [walk_stay hs] at h ⊢
      exact ih h
    · rw [walk_up] at h ⊢
      exact ih h
    · obtain ⟨hs, ⟨hd, hr⟩ | ⟨hnil, he⟩⟩ := walk_cons_ok hn h
      · rw [walk_cons_directory hn hs hd]
        exact ih hr
      · obtain ⟨rfl, rfl⟩ := List.append_eq_nil_iff.mp hnil
        obtain ⟨q, hq⟩ := hb.resolve_left (by simp)
        exact ⟨q, by rw [walk_singleton hn hs, ← he, hq]⟩

/-- Names lead to their own place, if they come out at all. -/
theorem walk_names {names : List Text} (hn : ∀ n ∈ names, Proceeds n)
    (hp : tree.lookup? place = some .directory) {d : Destination}
    (h : tree.walk place names = .ok d) :
    (∀ n ∈ names, byteCount n ≤ maxNameBytes) ∧ d = tree.destination (place ++ names) := by
  induction names generalizing place with
  | nil =>
    rw [walk] at h
    rw [List.append_nil, destination_of_lookup? hp]
    exact ⟨by simp, (Except.ok.inj h).symm⟩
  | cons n names ih =>
    obtain ⟨hs, ⟨hd, hr⟩ | ⟨rfl, hd⟩⟩ := walk_cons_ok (hn n (by simp)) h
    · obtain ⟨hshort, he⟩ := ih (fun m hm => hn m (by simp [hm])) hd hr
      refine ⟨?_, by rw [he, List.append_assoc]; rfl⟩
      intro m hm
      rcases List.mem_cons.mp hm with rfl | hm
      · exact hs
      · exact hshort m hm
    · exact ⟨by simpa using hs, hd⟩

/-- Short names lead to an entry that is there. -/
theorem WellFormed.walk_names_of_lookup? (hw : tree.WellFormed) {names : List Text}
    (hn : ∀ n ∈ names, Proceeds n) (hs : ∀ n ∈ names, byteCount n ≤ maxNameBytes) {entry : Entry}
    (hp : tree.lookup? place = some .directory)
    (he : tree.lookup? (place ++ names) = some entry) :
    tree.walk place names = .ok (tree.destination (place ++ names)) := by
  induction names generalizing place with
  | nil => rw [walk, List.append_nil, destination_of_lookup? hp]
  | cons n names ih =>
    by_cases hr : names = []
    · rw [hr]
      exact walk_singleton (hn n (by simp)) (hs n (by simp))
    · rw [← List.singleton_append, ← List.append_assoc] at he ⊢
      have hd := hw.lookup?_append hr he
      rw [List.singleton_append, walk_cons_directory (hn n (by simp)) (hs n (by simp)) hd]
      exact ih (fun m hm => hn m (by simp [hm])) (fun m hm => hs m (by simp [hm])) hd he

/-- Taking back a part of a normal form goes back up. -/
private theorem walk_push {rooted : Bool} {done : List Text} {part : Text} {q q' : Location}
    (hr : rooted = true → place = [])
    (hd : tree.walk place done = .ok (.found q .directory))
    (hall : ∀ p ∈ done, p ≠ [] ∧ p ≠ ['.'])
    (h : tree.walk q [part] = .ok (.found q' .directory)) :
    tree.walk place (Path.push rooted done part) = .ok (.found q' .directory) := by
  have added : tree.walk place (done ++ [part]) = .ok (.found q' .directory) := by
    rw [walk_append hd, h]
  rcases part_cases part with hs | rfl | hn
  · rw [walk_stay hs, walk] at h
    rw [Path.push, if_pos hs, hd, (Destination.found.inj (Except.ok.inj h)).1]
  · rw [walk_up, walk] at h
    have hq : q.dropLast = q' := (Destination.found.inj (Except.ok.inj h)).1
    rw [Path.push, if_neg (by decide), if_neg (by simp)]
    rcases List.eq_nil_or_concat done with rfl | ⟨front, last, rfl⟩
    · cases rooted with
      | false => exact added
      | true =>
        have hnil := hr rfl
        rw [walk] at hd
        have hpq : place = q := (Destination.found.inj (Except.ok.inj hd)).1
        rw [hnil] at hpq
        rw [← hq, ← hpq, hnil]
        rfl
    · rw [List.concat_eq_append] at hd hall added ⊢
      rw [List.getLast?_concat]
      by_cases hl : last = ['.', '.']
      · simp only [hl, if_true] at added ⊢
        exact added
      · simp only [hl, if_false, List.dropLast_concat]
        obtain ⟨above, ha⟩ := exists_walk_of_append hd (.inl (by simp))
        have hlast : Proceeds last := ⟨(hall last (by simp)).1, (hall last (by simp)).2, hl⟩
        rw [walk_append ha] at hd
        obtain ⟨_, ⟨_, hw⟩ | ⟨_, he⟩⟩ := walk_cons_ok hlast hd
        · rw [walk] at hw
          have hs := (Destination.found.inj (Except.ok.inj hw)).1
          rw [ha, ← hq, ← hs, List.dropLast_concat]
        · unfold destination at he
          split at he
          · have hs := (Destination.found.inj he).1
            rw [ha, ← hq, hs, List.dropLast_concat]
          · cases he
  · rw [Path.push, if_neg (by simp [hn.1, hn.2.1]), if_pos hn.2.2]
    exact added

/-- The normal form of a path that comes out in a directory comes out there too. -/
theorem walk_foldl_push {rooted : Bool} (hr : rooted = true → place = []) {todo done : List Text}
    {q q' : Location} (hall : ∀ p ∈ done, p ≠ [] ∧ p ≠ ['.'])
    (hd : tree.walk place done = .ok (.found q .directory))
    (h : tree.walk q todo = .ok (.found q' .directory)) :
    tree.walk place (todo.foldl (Path.push rooted) done) = .ok (.found q' .directory) := by
  induction todo generalizing done q with
  | nil =>
    rw [walk] at h
    rw [List.foldl_nil, hd, (Destination.found.inj (Except.ok.inj h)).1]
  | cons part todo ih =>
    rw [← List.singleton_append] at h
    obtain ⟨next, hnext⟩ := exists_walk_of_append h (.inr ⟨q', rfl⟩)
    rw [walk_append hnext] at h
    refine ih (fun p hp => ?_) (walk_push hr hd hall hnext) h
    rcases Path.mem_push hp with hp | ⟨rfl, hne⟩
    · exact hall p hp
    · exact hne

end PhotoNaming.FileTree
