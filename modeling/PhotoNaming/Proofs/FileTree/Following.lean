import PhotoNaming.Proofs.FileTree.Reach
import PhotoNaming.Proofs.Path.Above

/-! Paths through trees that may have links. Whatever a directory's path leads through, a name joined to it
leads to the entry of that name in the directory, unless the path is too long. -/
namespace PhotoNaming

namespace FileTree

open PhotoNaming.Path (IsName)

/-- A text that a file system takes for the name of an entry. -/
structure IsEntryName (n : Text) : Prop extends IsName n where
  no_null : '\x00' ∉ n
  short : byteCount n ≤ maxNameBytes

instance (n : Text) : Decidable (IsEntryName n) :=
  decidable_of_iff (IsName n ∧ '\x00' ∉ n ∧ byteCount n ≤ maxNameBytes)
    ⟨fun h => ⟨h.1, h.2.1, h.2.2⟩, fun h => ⟨h.toIsName, h.no_null, h.short⟩⟩

/-- All entries have names that a file system takes. -/
def Named (tree : FileTree) : Prop := ∀ e ∈ tree.entries, ∀ n ∈ e.1, IsEntryName n

instance (tree : FileTree) : Decidable tree.Named :=
  inferInstanceAs (Decidable (∀ e ∈ tree.entries, ∀ n ∈ e.1, IsEntryName n))

variable {tree : FileTree} {place : Location} {path name : Text} {names : List Text} {entry : Entry}

theorem Named.of_lookup? (hn : tree.Named) (h : tree.lookup? place = some entry) :
    ∀ n ∈ place, IsEntryName n := by
  by_cases hp : place = []
  · simp [hp]
  · exact hn _ (mem_entries_of_lookup? hp h)

private theorem eq_append_of_last {other : Location}
    (h : (if other.dropLast = place then other.getLast? else none) = some name) :
    other = place ++ [name] := by
  split at h
  · rename_i hd
    obtain ⟨front, rfl⟩ := List.getLast?_eq_some_iff.mp h
    rw [List.dropLast_concat] at hd
    rw [hd]
  · cases h

/-- The names of a directory are those that lead from it to an entry. -/
theorem WellFormed.mem_names_iff (hw : tree.WellFormed) :
    name ∈ tree.names place ↔ ∃ entry, tree.lookup? (place ++ [name]) = some entry := by
  rw [FileTree.names, List.mem_filterMap]
  constructor
  · rintro ⟨⟨other, entry⟩, he, hn⟩
    exact ⟨entry, eq_append_of_last hn ▸ hw.lookup?_of_mem he⟩
  · rintro ⟨entry, h⟩
    exact ⟨_, mem_entries_of_lookup? (by simp) h, by simp⟩

theorem Named.of_mem_names (hn : tree.Named) (h : name ∈ tree.names place) : IsEntryName name := by
  rw [FileTree.names, List.mem_filterMap] at h
  obtain ⟨⟨other, entry⟩, he, hname⟩ := h
  exact hn _ he name (by simp [eq_append_of_last hname])

theorem WellFormed.nodup_names (hw : tree.WellFormed) (place : Location) :
    (tree.names place).Nodup := by
  rw [FileTree.names]
  refine List.Pairwise.filterMap _ ?_ (List.pairwise_map.mp hw.nodup)
  rintro a b hab n hn _ hm rfl
  exact hab ((eq_append_of_last hn).trans (eq_append_of_last hm).symm)

theorem lead_stay {part : Text} (h : part = [] ∨ part = ['.']) (follow : Bool) (links : Nat)
    (rest : List Text) : tree.lead follow links place (part :: rest) = tree.lead follow links place rest := by
  rw [lead, if_pos h]

theorem lead_up (follow : Bool) (links : Nat) (rest : List Text) :
    tree.lead follow links place (['.', '.'] :: rest) = tree.lead follow links place.dropLast rest := by
  rw [lead, if_neg (by decide), if_pos rfl]

theorem lead_slack_append {slack : List Text} (hs : ∀ part ∈ slack, part = [] ∨ part = ['.'])
    (follow : Bool) (links : Nat) (rest : List Text) :
    tree.lead follow links place (slack ++ rest) = tree.lead follow links place rest := by
  induction slack with
  | nil => rfl
  | cons part slack ih =>
    rw [List.cons_append, lead_stay (hs part (by simp))]
    exact ih fun other ho => hs other (List.mem_cons_of_mem _ ho)

/-- A name leads to what has it in the directory. -/
theorem lead_cons (hn : IsEntryName name) (follow : Bool) (links : Nat) (rest : List Text) :
    tree.lead follow links place (name :: rest) =
      match tree.lookup? (place ++ [name]) with
      | none => if rest = [] then .ok (.free (place ++ [name])) else .error .notFound
      | some .directory => tree.lead follow links (place ++ [name]) rest
      | some (.file data) =>
        if rest = [] then .ok (.found (place ++ [name]) (.file data)) else .error .notDirectory
      | some (.special accessed) =>
        if rest = [] then .ok (.found (place ++ [name]) (.special accessed)) else .error .notDirectory
      | some (.link target) =>
        if rest = [] ∧ !follow then .ok (.found (place ++ [name]) (.link target))
        else
          match links with
          | 0 => .error .tooManyLinks
          | links + 1 =>
            tree.lead follow links (if Path.isAbsolute target then [] else place)
              (Path.parts target ++ rest) := by
  have hproceeds : ¬(name = [] ∨ name = ['.']) := by simp [hn.ne_nil, hn.ne_dot]
  rewrite [lead, if_neg hproceeds, if_neg hn.ne_dots, if_neg (Nat.not_lt_of_le hn.short)]
  rfl

theorem IsEntryName.isPath (hn : IsEntryName name) : IsPath name where
  no_null := hn.no_null
  ne_nil := hn.ne_nil
  short := Nat.le_trans hn.short (by decide)

/-- A name that no link has leads to its own place. -/
theorem lead_name (hn : IsEntryName name)
    (hl : ∀ target, tree.lookup? (place ++ [name]) ≠ some (.link target)) (follow : Bool) (links : Nat) :
    tree.lead follow links place [name] = .ok (tree.destination (place ++ [name])) := by
  rw [lead_cons hn, destination]
  cases he : tree.lookup? (place ++ [name]) with
  | none => rfl
  | some entry =>
    cases entry with
    | directory => simp only [lead]
    | file data | special accessed => rfl
    | link target => exact absurd he (hl target)

theorem locate_name (hn : IsEntryName name)
    (hl : ∀ target, tree.lookup? (tree.working ++ [name]) ≠ some (.link target)) (follow : Bool) :
    tree.locate follow name = .ok (tree.destination (tree.working ++ [name])) := by
  rw [hn.isPath.locate_eq, start, hn.isAbsolute, Path.parts_name hn.no_slash]
  exact lead_name hn hl follow _

theorem locate_link {target : Text} (hn : IsEntryName name)
    (h : tree.lookup? (tree.working ++ [name]) = some (.link target)) :
    tree.locate false name = .ok (.found (tree.working ++ [name]) (.link target)) := by
  rw [hn.isPath.locate_eq, start, hn.isAbsolute, Path.parts_name hn.no_slash, lead_cons hn]
  simp [h]

/-- A link to a name of the working directory is followed to it. -/
theorem locate_linked {target : Text} (hn : IsEntryName name)
    (h : tree.lookup? (tree.working ++ [name]) = some (.link target)) (ht : IsEntryName target)
    (hl : ∀ next, tree.lookup? (tree.working ++ [target]) ≠ some (.link next)) :
    tree.locate true name = .ok (tree.destination (tree.working ++ [target])) := by
  rw [hn.isPath.locate_eq, start, hn.isAbsolute, Path.parts_name hn.no_slash, lead_cons hn]
  simp only [Bool.false_eq_true, if_false, h, Bool.not_true, and_false, maxLinks, ht.isAbsolute,
    Path.parts_name ht.no_slash, List.append_nil]
  exact lead_name ht hl true _

/-- Where parts lead to a directory in the end, what comes behind the first of them is followed from one
place on, whatever it is, and among more entries, too. -/
theorem exists_lead_append {links : Nat} {front back : List Text} {q : Location}
    (h : tree.lead true links place (front ++ back) = .ok (.found q .directory)) :
    ∃ links' p, ∀ more follow rest, follow = true ∨ rest ≠ [] →
      (tree.extended more).lead follow links place (front ++ rest) =
        (tree.extended more).lead follow links' p rest := by
  induction links, place, front using lead.induct tree true with
  | case1 links place => exact ⟨links, place, fun _ _ _ _ => rfl⟩
  | case2 links place part front hs ih =>
    have step (t : FileTree) (follow : Bool) (rest : List Text) :
        t.lead follow links place (part :: front ++ rest) = t.lead follow links place (front ++ rest) :=
      lead_stay hs follow links _
    rw [step] at h
    obtain ⟨links', p, hp⟩ := ih h
    exact ⟨links', p, fun more follow rest hr => (step _ follow rest).trans (hp more follow rest hr)⟩
  | case3 links place front hs ih =>
    have step (t : FileTree) (follow : Bool) (rest : List Text) :
        t.lead follow links place (['.', '.'] :: front ++ rest) =
          t.lead follow links place.dropLast (front ++ rest) := lead_up follow links _
    rw [step] at h
    obtain ⟨links', p, hp⟩ := ih h
    exact ⟨links', p, fun more follow rest hr => (step _ follow rest).trans (hp more follow rest hr)⟩
  | case7 links place part front hs hd hl he ih =>
    have step (more : List (Location × Entry)) (follow : Bool) (rest : List Text) :
        (tree.extended more).lead follow links place (part :: front ++ rest) =
          (tree.extended more).lead follow links (place ++ [part]) (front ++ rest) := by
      rw [List.cons_append, lead, if_neg hs, if_neg hd, if_neg hl, lookup?_extended_of_some more he]
    have hstep := step [] true back
    rw [extended_nil] at hstep
    rw [hstep] at h
    obtain ⟨links', p, hp⟩ := ih h
    exact ⟨links', p, fun more follow rest hr => (step more follow rest).trans (hp more follow rest hr)⟩
  | case14 place part front hs hd hl target he hf links ih =>
    have step (more : List (Location × Entry)) (follow : Bool) (rest : List Text)
        (hr : follow = true ∨ rest ≠ []) :
        (tree.extended more).lead follow (links + 1) place (part :: front ++ rest) =
          (tree.extended more).lead follow links (if Path.isAbsolute target then [] else place)
            (Path.parts target ++ front ++ rest) := by
      have hgoes : ¬(front ++ rest = [] ∧ !follow) := by
        rintro ⟨hnil, hfollow⟩
        rcases hr with hr | hr
        · simp [hr] at hfollow
        · exact hr (List.append_eq_nil_iff.mp hnil).2
      rw [List.cons_append, lead, if_neg hs, if_neg hd, if_neg hl, lookup?_extended_of_some more he]
      simp only [if_neg hgoes, List.append_assoc]
    have hstep := step [] true back (.inl rfl)
    rw [extended_nil] at hstep
    rw [hstep] at h
    obtain ⟨links', p, hp⟩ := ih h
    exact ⟨links', p, fun more follow rest hr =>
      (step more follow rest hr).trans (hp more follow rest hr)⟩
  | case4 | case5 | case6 | case8 | case9 | case10 | case11 | case12 | case13 =>
    rw [List.cons_append, lead] at h
    grind

theorem exists_lead_append_self {links : Nat} {front back : List Text} {q : Location}
    (h : tree.lead true links place (front ++ back) = .ok (.found q .directory)) :
    ∃ links' p, ∀ rest, tree.lead true links place (front ++ rest) = tree.lead true links' p rest := by
  obtain ⟨links', p, hp⟩ := exists_lead_append h
  refine ⟨links', p, fun rest => ?_⟩
  have hrest := hp [] true rest (.inl rfl)
  rwa [extended_nil] at hrest

theorem IsPath.join (h : IsPath path) (hn : IsEntryName name)
    (hs : byteCount (Path.join path name) ≤ maxPathBytes) : IsPath (Path.join path name) where
  no_null := by
    have hp := h.no_null
    rw [Path.join_eq path hn.isAbsolute]
    rcases Path.join_nil_cases path with ⟨hj, _⟩ | ⟨front, he, hj⟩ | ⟨front, c, _, he, hj⟩
    · rw [hj]
      exact hn.no_null
    · rw [hj, ← he]
      simp [hp, hn.no_null]
    · rw [hj, ← he]
      simp [hp, hn.no_null]
  ne_nil := by
    rw [Path.join_eq path hn.isAbsolute]
    simp [hn.ne_nil]
  short := hs

/-- A name behind a directory's path is followed from the directory on. -/
theorem exists_locate_join (h : tree.entryAt path = .ok (place, .directory)) :
    ∃ links, ∀ name, IsEntryName name → byteCount (Path.join path name) ≤ maxPathBytes →
      tree.locate true (Path.join path name) = tree.lead true links place [name] := by
  have hi := isPath_of_entryAt h
  have hl := locate_of_entryAt h
  rw [hi.locate_eq] at hl
  obtain ⟨front, hf, hj⟩ := Path.exists_parts_join hi.ne_nil
  obtain ⟨back, hf, hb⟩ : ∃ back : List Text, Path.parts path = front ++ back ∧
      ∀ links p, tree.lead true links p back = .ok (.found p .directory) := by
    rcases hf with hf | hf
    · exact ⟨[], by rw [hf, List.append_nil], fun links p => by rw [lead]⟩
    · exact ⟨[[]], hf, fun links p => by rw [lead_stay (.inl rfl), lead]⟩
  rw [hf] at hl
  obtain ⟨links, p, hp⟩ := exists_lead_append_self hl
  rw [hp, hb, Except.ok.injEq, Destination.found.injEq] at hl
  obtain ⟨rfl, _⟩ := hl
  refine ⟨links, fun name hn hs => ?_⟩
  rw [(hi.join hn hs).locate_eq, start_join tree path hn.isAbsolute, hj name hn.isAbsolute, hp,
    Path.parts_name hn.no_slash]

/-- What is no link is found at its name. -/
theorem entryAt_join (h : tree.entryAt path = .ok (place, .directory)) (hn : IsEntryName name)
    (he : tree.lookup? (place ++ [name]) = some entry) (hl : ∀ target, entry ≠ .link target)
    (hs : byteCount (Path.join path name) ≤ maxPathBytes) :
    tree.entryAt (Path.join path name) = .ok (place ++ [name], entry) := by
  obtain ⟨links, hj⟩ := exists_locate_join h
  rw [entryAt, hj name hn hs, lead_cons hn, he]
  cases entry with
  | directory => simp [lead]
  | file data | special accessed => simp
  | link target => exact absurd rfl (hl target)

theorem not_entryAt_of_long (h : maxPathBytes < byteCount path) (found : Location × Entry) :
    tree.entryAt path ≠ .ok found := by
  intro he
  have hs := (isPath_of_entryAt he).short
  omega

/-- Where links are followed to the end, no path comes out at one. -/
theorem lead_ne_link (tree : FileTree) (links : Nat) (place : Location) (todo : List Text)
    (q : Location) (target : Text) :
    tree.lead true links place todo ≠ .ok (.found q (.link target)) := by
  fun_induction tree.lead true links place todo <;> simp_all

/-- A path leads to an entry that is neither a file nor a directory. -/
def isSpecial (tree : FileTree) (path : Text) : Bool :=
  match tree.entryAt path with
  | .ok (_, .special _) => true
  | _ => false

theorem isSpecial_of_isFile {path : Text} (h : tree.isFile path = true) : tree.isSpecial path = false := by
  unfold isFile at h
  split at h
  · rename_i he
    rw [isSpecial, he]
  · cases h

/-- Every path that leads to something leads to a file, to a directory or to a special entry. -/
theorem exists?_eq (tree : FileTree) (path : Text) :
    tree.exists? path = (tree.isFile path || tree.isDirectory path || tree.isSpecial path) := by
  rw [exists?, isFile, isDirectory, isSpecial]
  cases h : tree.entryAt path with
  | error refusal => rfl
  | ok found =>
    obtain ⟨q, entry⟩ := found
    cases entry with
    | directory | file data | special accessed => rfl
    | link target =>
      have hl := locate_of_entryAt h
      rw [(isPath_of_entryAt h).locate_eq] at hl
      exact absurd hl (lead_ne_link tree _ _ _ q target)

end FileTree

end PhotoNaming
