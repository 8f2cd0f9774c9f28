import PhotoNaming.Proofs.FileTree.Sparing

/-! Normal forms of paths through trees with links. A normal form takes back the name before a `..`, while a
tree goes up from where that name leads. The two agree unless the name is that of a link. -/
namespace PhotoNaming.FileTree

open PhotoNaming.Path (IsName slashed)

/-- The `..` of a path do not stand behind links. What is before each of them counts in its normal form,
since a `.` behind a link hides it. -/
def LeavesNoLink (tree : FileTree) (path : Text) : Prop :=
  ∀ front back, Path.parts path = front ++ ['.', '.'] :: back →
    tree.linkTarget? (Path.normal (Text.joinWith ['/'] front)) = none

variable {tree : FileTree} {place q : Location} {path directory : Text} {links : Nat}
  {more : List (Location × Entry)}

/-- A name that is no link and has more parts behind it is that of a directory. -/
private theorem lookup?_of_lead_cons {part next : Text} {todo : List Text} (hp : Proceeds part)
    (hl : ∀ target, tree.lead false links place [part] ≠ .ok (.found (place ++ [part]) (.link target)))
    (h : tree.lead true links place (part :: next :: todo) = .ok (.found q .directory)) :
    byteCount part ≤ maxNameBytes ∧ tree.lookup? (place ++ [part]) = some .directory := by
  have hs : ¬(part = [] ∨ part = ['.']) := by simp [hp.1, hp.2.1]
  rw [lead, if_neg hs, if_neg hp.2.2] at h
  split at h
  · cases h
  · rename_i hshort
    refine ⟨Nat.le_of_not_lt hshort, ?_⟩
    cases he : tree.lookup? (place ++ [part]) with
    | none => simp [he] at h
    | some entry =>
      cases entry with
      | directory => rfl
      | file data | special accessed => simp [he] at h
      | link target =>
        refine absurd ?_ (hl target)
        rw [lead, if_neg hs, if_neg hp.2.2, if_neg hshort, he]
        simp

theorem lead_directory {part : Text} (hp : Proceeds part) (hs : byteCount part ≤ maxNameBytes)
    (hd : tree.lookup? (place ++ [part]) = some .directory) (follow : Bool) (rest : List Text) :
    tree.lead follow links place (part :: rest) = tree.lead follow links (place ++ [part]) rest := by
  rw [lead, if_neg (by simp [hp.1, hp.2.1]), if_neg hp.2.2, if_neg (Nat.not_lt_of_le hs), hd]

/-- Taking back a name that is no link goes back up. -/
theorem lead_push {rooted : Bool} {done : List Text} {part : Text} {todo : List Text}
    (hr : rooted = true → place = []) (hall : ∀ p ∈ done, p ≠ [] ∧ p ≠ ['.'])
    (h : tree.lead true links place (done ++ part :: todo) = .ok (.found q .directory))
    (hl : part = ['.', '.'] → ∀ p target, tree.lead false links place done ≠ .ok (.found p (.link target)))
    (rest : List Text) :
    (tree.extended more).lead true links place (done ++ part :: rest) =
      (tree.extended more).lead true links place (Path.push rooted done part ++ rest) := by
  rcases part_cases part with hs | rfl | hn
  · obtain ⟨links', p, hp⟩ := exists_lead_append h
    rw [Path.push, if_pos hs, hp more true _ (.inl rfl), hp more true _ (.inl rfl), lead_stay hs]
  · have added : done ++ ['.', '.'] :: rest = done ++ [['.', '.']] ++ rest := by simp
    rw [Path.push, if_neg (by decide), if_neg (by simp)]
    rcases List.eq_nil_or_concat done with rfl | ⟨front, last, rfl⟩
    · cases rooted with
      | false => exact congrArg _ added
      | true =>
        rw [hr rfl, List.nil_append, lead_up]
        rfl
    · rw [List.concat_eq_append] at h hl hall added ⊢
      rw [List.getLast?_concat]
      by_cases hd : last = ['.', '.']
      · simp only [hd, if_true] at added ⊢
        exact congrArg _ added
      · have hlast : Proceeds last := ⟨(hall last (by simp)).1, (hall last (by simp)).2, hd⟩
        simp only [hd, if_false, List.dropLast_concat]
        rw [List.append_assoc, List.singleton_append] at h ⊢
        obtain ⟨links', p, hp⟩ := exists_lead_append h
        have hself (follow : Bool) (rest : List Text) (hne : follow = true ∨ rest ≠ []) :
            tree.lead follow links place (front ++ rest) = tree.lead follow links' p rest := by
          have hp := hp [] follow rest hne
          rwa [extended_nil] at hp
        rw [hself true _ (.inl rfl)] at h
        have hnolink (target : Text) :
            tree.lead false links' p [last] ≠ .ok (.found (p ++ [last]) (.link target)) := by
          rw [← hself false [last] (.inr (by simp))]
          exact hl rfl _ target
        obtain ⟨hshort, he⟩ := lookup?_of_lead_cons hlast hnolink h
        rw [hp more true _ (.inl rfl), hp more true _ (.inl rfl),
          lead_directory hlast hshort (lookup?_extended_of_some more he), lead_up, List.dropLast_concat]
  · rw [Path.push, if_neg (by simp [hn.1, hn.2.1]), if_pos hn.2.2, List.append_assoc, List.singleton_append]

theorem lead_normal (tree : FileTree) (follow : Bool) (links : Nat) (place : Location) (path : Text) :
    tree.lead follow links place (Path.parts (Path.normal path)) =
      tree.lead follow links place (Path.normalParts path) := by
  obtain ⟨slack, hs, hp⟩ := Path.exists_parts_normal path
  rw [hp, lead_slack_append hs]

/-- What is before a `..` does not lead to a link, in normal form. -/
private theorem LeavesNoLink.lead_front_ne_link (hl : tree.LeavesNoLink path) (hi : IsPath path)
    {front back : List Text} (h : Path.parts path = front ++ ['.', '.'] :: back) (p : Location)
    (target : Text) :
    tree.lead false maxLinks (tree.start path) (Path.normalParts (Text.joinWith ['/'] front)) ≠
      .ok (.found p (.link target)) := by
  intro hlead
  by_cases hn : Text.joinWith ['/'] front = []
  · rw [hn, show Path.normalParts [] = [] from rfl, lead] at hlead
    cases hlead
  · have hf : front ≠ [] := by
      rintro rfl
      exact hn rfl
    have he := Path.eq_joinWith_append h hf (by simp)
    have hfront : IsPath (Text.joinWith ['/'] front) := by
      have hnull := hi.no_null
      have hshort := hi.short
      rw [he, List.mem_append, not_or] at hnull
      rw [he, byteCount_append] at hshort
      exact ⟨hnull.1, hn, by omega⟩
    have hstart : tree.start path = tree.start (Text.joinWith ['/'] front) := by
      rw [start, start]
      conv => lhs; rw [he, Path.isAbsolute_append hn]
    have hnone := hl front back h
    rw [linkTarget?, hfront.normal.locate_eq, start_normal, lead_normal, ← hstart, hlead] at hnone
    cases hnone

/-- A directory's path leads on as its normal form does. -/
theorem LeavesNoLink.lead_parts_append (hl : tree.LeavesNoLink path)
    (hd : tree.entryAt path = .ok (q, .directory)) (rest : List Text) :
    (tree.extended more).lead true maxLinks (tree.start path) (Path.parts path ++ rest) =
      (tree.extended more).lead true maxLinks (tree.start path) (Path.normalParts path ++ rest) := by
  have hi := isPath_of_entryAt hd
  have hled := locate_of_entryAt hd
  rw [hi.locate_eq] at hled
  have run (todo front : List Text) (hp : Path.parts path = front ++ todo)
      (h : ∀ more rest, (tree.extended more).lead true maxLinks (tree.start path) (front ++ rest) =
        (tree.extended more).lead true maxLinks (tree.start path)
          (front.foldl (Path.push (Path.isAbsolute path)) [] ++ rest)) :
      (tree.extended more).lead true maxLinks (tree.start path) (Path.parts path ++ rest) =
        (tree.extended more).lead true maxLinks (tree.start path) (Path.normalParts path ++ rest) := by
    induction todo generalizing front with
    | nil =>
      rw [List.append_nil] at hp
      rw [Path.normalParts, hp, h more rest]
    | cons part todo ih =>
      refine ih (front ++ [part]) (by simp [hp]) fun more rest => ?_
      have hself := h [] (part :: todo)
      rw [extended_nil, ← hp, hled] at hself
      have hdone := Path.foldl_push_eq_normalParts hp (by simp)
      rw [List.foldl_concat, List.append_assoc, List.singleton_append, h more (part :: rest)]
      rw [hdone] at hself ⊢
      refine lead_push ?_ (fun p hm => ?_) hself.symm ?_ rest
      · intro ha
        rw [start, ha, if_pos rfl]
      · obtain ⟨hne, hdot, _⟩ := Path.of_mem_normalParts hm
        exact ⟨hne, hdot⟩
      · rintro rfl
        exact hl.lead_front_ne_link hi hp
  exact run (Path.parts path) [] rfl fun _ _ => rfl

/-! ### Names below a directory -/

section

variable {names : List Text} {name : Text} {todo : List Text}

/-- The slash behind the last name may be left out. -/
theorem lead_parts_join (hne : directory ≠ []) (hn : ∀ n ∈ names, IsName n)
    (h : tree.lead true links place (Path.parts (Path.join directory (slashed names))) =
      .ok (.found q .directory)) :
    tree.lead true links place (Path.parts directory ++ names) = .ok (.found q .directory) := by
  obtain ⟨front, hf, hj⟩ := Path.exists_parts_join hne
  have hslashed := Path.parts_slashed (fun n hm => (hn n hm).no_slash) []
  rw [List.append_nil, show Path.parts [] = [[]] from rfl] at hslashed
  rw [hj _ (Path.isAbsolute_slashed hn), hslashed] at h
  obtain ⟨before, p, hp⟩ := exists_lead_append_self h
  rw [← List.append_assoc] at h
  obtain ⟨behind, p', hp'⟩ := exists_lead_append_self h
  have hplain : tree.lead true links place (front ++ names) = .ok (.found q .directory) := by
    rw [hp', lead_stay (.inl rfl), ← hp', List.append_nil] at h
    exact h
  rcases hf with hf | hf
  · rw [hf, hplain]
  · rw [hf, List.append_assoc, List.singleton_append, hp, lead_stay (.inl rfl), ← hp, hplain]

theorem entryAt_join_nil (h : tree.entryAt directory = .ok (place, .directory))
    (hs : byteCount (Path.join directory []) ≤ maxPathBytes) :
    tree.entryAt (Path.join directory []) = .ok (place, .directory) := by
  have hi := isPath_of_entryAt h
  rcases Path.join_nil_cases directory with ⟨_, hd⟩ | ⟨front, hd, hj⟩ | ⟨front, c, _, hd, hj⟩
  · exact absurd hd hi.ne_nil
  · rw [hj, ← hd, h]
  · rw [← hd] at hj
    have hpath : IsPath (Path.join directory []) :=
      ⟨by simp [hj, hi.no_null], by simp [hj], hs⟩
    have hl := locate_of_entryAt h
    rw [hi.locate_eq, ← List.append_nil (Path.parts directory)] at hl
    obtain ⟨links', p, hp⟩ := exists_lead_append_self hl
    have hparts : Path.parts (Path.join directory []) = Path.parts directory ++ [[]] := by
      rw [hj, Path.parts_append_slash]
      rfl
    rw [hp] at hl
    rw [entryAt, hpath.locate_eq, start_join tree directory rfl, hparts, hp, lead_stay (.inl rfl), hl]

/-- When fewer or more links may be followed, parts lead to the same, or there are too many links. -/
theorem lead_eq_or_tooManyLinks {d : Destination} (h : tree.lead true links place todo = .ok d)
    (others : Nat) :
    tree.lead true others place todo = .ok d ∨ tree.lead true others place todo = .error .tooManyLinks := by
  induction links, place, todo using lead.induct tree true generalizing others with
  | case14 place part rest hs hd hl target he hf links ih =>
    rw [lead, if_neg hs, if_neg hd, if_neg hl, he] at h
    simp only [if_neg hf] at h
    rw [lead, if_neg hs, if_neg hd, if_neg hl, he]
    simp only [if_neg hf]
    cases others with
    | zero => exact .inr rfl
    | succ others => exact ih h others
  | _ =>
    rw [lead] at h ⊢
    grind

/-- Names lead on from a directory by whatever path it is reached, unless there are too many links. -/
theorem lead_append_eq_or_tooManyLinks {front back : List Text} {base : Location}
    (hf : tree.lead true links place front = .ok (.found base .directory))
    (hb : tree.lead true links place back = .ok (.found base .directory)) {d : Destination}
    (h : tree.lead true links place (front ++ names) = .ok d) :
    tree.lead true links place (back ++ names) = .ok d ∨
      tree.lead true links place (back ++ names) = .error .tooManyLinks := by
  have leads {todo : List Text} (ht : tree.lead true links place todo = .ok (.found base .directory)) :
      ∃ links', tree.lead true links place (todo ++ names) = tree.lead true links' base names := by
    rw [← List.append_nil todo] at ht
    obtain ⟨links', p, hp⟩ := exists_lead_append_self ht
    rw [hp, lead] at ht
    obtain ⟨rfl, _⟩ := Destination.found.inj (Except.ok.inj ht)
    exact ⟨links', hp names⟩
  obtain ⟨links', he⟩ := leads hf
  obtain ⟨others, he'⟩ := leads hb
  rw [he] at h
  rw [he']
  exact lead_eq_or_tooManyLinks h others

/-- What is free under a name stands in the directory that the parts before it lead to. -/
theorem dropLast_of_lead_free (h : tree.lead true links place todo = .ok (.found q .directory))
    (hn : IsName name) {free : Location}
    (hf : tree.lead false links place (todo ++ [name]) = .ok (.free free)) : free.dropLast = q := by
  rw [← List.append_nil todo] at h
  obtain ⟨links', p, hp⟩ := exists_lead_append h
  have hself := hp [] true [] (.inl rfl)
  have hname := hp [] false [name] (.inr (by simp))
  rw [extended_nil] at hself hname
  rw [hself, lead] at h
  obtain ⟨rfl, _⟩ := Destination.found.inj (Except.ok.inj h)
  rw [hname, lead, if_neg (by simp [hn.ne_nil, hn.ne_dot]), if_neg hn.ne_dots] at hf
  split at hf
  · cases hf
  · split at hf
    · rw [if_pos rfl] at hf
      rw [← Destination.free.inj (Except.ok.inj hf), List.dropLast_concat]
    · rw [lead] at hf
      cases hf
    · cases hf
    · cases hf
    · cases hf

/-- The normal form of a path made of a directory's and of names leads on from the normal form of the
directory's. -/
theorem lead_normal_join (tree : FileTree) (directory : Text) (hn : ∀ n ∈ names, IsName n) (follow : Bool)
    (links : Nat) :
    tree.lead follow links (tree.start (Path.normal (Path.join directory (slashed names))))
        (Path.parts (Path.normal (Path.join directory (slashed names)))) =
      tree.lead follow links (tree.start directory) (Path.normalParts directory ++ names) := by
  rw [lead_normal, start_normal, start_join tree directory (Path.isAbsolute_slashed hn),
    Path.normalParts_join_slashed directory hn]

theorem lead_normal_join_name (tree : FileTree) (directory : Text) (hn : ∀ n ∈ names, IsName n)
    (hname : IsName name) (follow : Bool) (links : Nat) :
    tree.lead follow links (tree.start (Path.normal (Path.join (Path.join directory (slashed names)) name)))
        (Path.parts (Path.normal (Path.join (Path.join directory (slashed names)) name))) =
      tree.lead follow links (tree.start directory) (Path.normalParts directory ++ names ++ [name]) := by
  have hparts := Path.normalParts_join_names directory hn hname.isAbsolute
    (by simp [Path.components_name hname, hname])
  rw [lead_normal, start_normal, Path.join_join directory hn hname.isAbsolute,
    start_join tree directory (Path.isAbsolute_slashed_append hn hname.isAbsolute), hparts,
    Path.components_name hname]

end

end PhotoNaming.FileTree
