import PhotoNaming.Proofs.Path.Above
import PhotoNaming.Proofs.Path.Extension
import Mathlib.Data.List.TakeWhile

/-! The directory part of a path. It has the first parts of the path that count, and in an absolute normal
form these are names: nothing in it goes up again. What names are joined to is the directory part of the
normal form of the whole. -/
namespace PhotoNaming.Path

variable {path slashes front name : Text}

/-- Slashes at the end of a path add empty parts. -/
theorem exists_parts_append_slashes (path : Text) (h : ∀ c ∈ slashes, c = '/') :
    ∃ slack, (∀ part ∈ slack, part = []) ∧ parts (path ++ slashes) = parts path ++ slack := by
  cases slashes with
  | nil => exact ⟨[], by simp, by simp⟩
  | cons c rest =>
    obtain rfl := h c (by simp)
    refine ⟨parts rest, ?_, parts_append_slash path rest⟩
    induction rest with
    | nil => simp [parts]
    | cons c rest ih =>
      obtain rfl := h c (by simp)
      rw [parts_slash_cons]
      intro part hp
      rcases List.mem_cons.mp hp with hp | hp
      · exact hp
      · exact ih (fun d hd => h d (List.mem_cons_of_mem _ hd)) part hp

theorem components_append_slashes (path : Text) (h : ∀ c ∈ slashes, c = '/') :
    components (path ++ slashes) = components path := by
  obtain ⟨slack, hs, he⟩ := exists_parts_append_slashes path h
  have hnone : slack.filter (fun p => p ≠ [] ∧ p ≠ ['.']) = [] := by
    rw [List.filter_eq_nil_iff]
    intro part hp
    simp [hs part hp]
  rw [components, he, List.filter_append, hnone, List.append_nil, components]

theorem isAbsolute_append (hn : path ≠ []) (rest : Text) :
    isAbsolute (path ++ rest) = isAbsolute path := by
  cases path with
  | nil => exact absurd rfl hn
  | cons c path => rfl

/-- A path cut between two of its parts has a slash there. -/
theorem eq_joinWith_append {first rest : List Text} (h : parts path = first ++ rest) (hf : first ≠ [])
    (hr : rest ≠ []) :
    path = Text.joinWith ['/'] first ++ '/' :: Text.joinWith ['/'] rest := by
  have hs := slashed_parts path
  rw [h, slashed_append, slashed_eq hf, slashed_eq hr, ← List.append_assoc] at hs
  rw [← List.append_cancel_right hs]
  simp

/-- The first parts of a path, as far as they have been brought to normal form, are the normal form of
the path that they make. -/
theorem foldl_push_eq_normalParts {first rest : List Text} (h : parts path = first ++ rest)
    (hr : rest ≠ []) :
    first.foldl (push (isAbsolute path)) [] = normalParts (Text.joinWith ['/'] first) := by
  by_cases hf : first = []
  · rw [hf]
    rfl
  · have hp : parts (Text.joinWith ['/'] first) = first := by
      refine parts_joinWith hf fun p hm => ?_
      have hp : p ∈ parts path := h ▸ List.mem_append_left _ hm
      exact slash_notMem_of_mem_parts hp
    by_cases hn : Text.joinWith ['/'] first = []
    · rw [hn] at hp ⊢
      rw [← hp]
      rfl
    · have ha : isAbsolute path = isAbsolute (Text.joinWith ['/'] first) := by
        conv => lhs; rw [eq_joinWith_append h hf hr]
        exact isAbsolute_append hn _
      rw [normalParts, hp, ha]

/-- What is left of a text without the slashes at its end. -/
private theorem exists_slashes (text : Text) :
    ∃ slashes, (∀ c ∈ slashes, c = '/') ∧
      text = (text.reverse.dropWhile (· = '/')).reverse ++ slashes := by
  refine ⟨(text.reverse.takeWhile (· = '/')).reverse, ?_, ?_⟩
  · intro c hc
    simpa using List.mem_takeWhile_imp (List.mem_reverse.mp hc)
  · rw [← List.reverse_append, List.takeWhile_append_dropWhile, List.reverse_reverse]

theorem exists_slashes_bare (path : Text) :
    ∃ slashes, (∀ c ∈ slashes, c = '/') ∧ path = bare path ++ slashes := by
  rw [bare]
  split
  · exact ⟨[], by simp, by rw [List.append_nil]⟩
  · exact exists_slashes path

theorem components_bare (path : Text) : components (bare path) = components path := by
  obtain ⟨slashes, hs, he⟩ := exists_slashes_bare path
  have h := components_append_slashes (bare path) hs
  rw [← he] at h
  exact h.symm

theorem bare_ne_nil (h : path ≠ []) : bare path ≠ [] := by
  rw [bare]
  split
  · exact h
  · rename_i hne
    exact hne

theorem isAbsolute_bare (h : path ≠ []) : isAbsolute (bare path) = isAbsolute path := by
  obtain ⟨slashes, _, he⟩ := exists_slashes_bare path
  have ha := isAbsolute_append (bare_ne_nil h) slashes
  rw [← he] at ha
  exact ha.symm

/-- A path is a name, or is cut behind its last slash. -/
theorem head_cases (path : Text) :
    head path = [] ∧ '/' ∉ path ∨
      ∃ front name, '/' ∉ name ∧ path = front ++ '/' :: name ∧ head path = front ++ ['/'] := by
  have passes {text : Text} (h : '/' ∉ text) : ∀ c ∈ text, decide (c ≠ '/') = true := by
    intro c hc
    simp only [decide_eq_true_eq]
    rintro rfl
    exact h hc
  by_cases hm : '/' ∈ path
  · obtain ⟨back, front, he, hb⟩ := List.eq_append_cons_of_mem (List.mem_reverse.mpr hm)
    have hp : path = front.reverse ++ '/' :: back.reverse := by
      have hr := congrArg List.reverse he
      simpa using hr
    refine .inr ⟨front.reverse, back.reverse, by simpa using hb, hp, ?_⟩
    rw [head, he, List.dropWhile_append_of_pos (passes hb), List.dropWhile_cons_of_neg (by simp),
      List.reverse_cons]
  · have hd : path.reverse.dropWhile (fun c => decide (c ≠ '/')) = [] := by
      rw [List.dropWhile_eq_nil_iff]
      exact passes (by simpa using hm)
    exact .inl ⟨by rw [head, hd, List.reverse_nil], hm⟩

theorem exists_slashes_directory (path : Text) :
    ∃ slashes, (∀ c ∈ slashes, c = '/') ∧ head path = directory path ++ slashes := by
  rw [directory]
  split
  · exact ⟨[], by simp, by rw [List.append_nil]⟩
  · exact exists_slashes (head path)

theorem components_directory_isPrefix (path : Text) :
    components (directory path) <+: components path := by
  obtain ⟨slashes, hs, he⟩ := exists_slashes_directory path
  have hc := components_append_slashes (directory path) hs
  rw [← he] at hc
  rw [← hc]
  rcases head_cases path with ⟨h, _⟩ | ⟨front, name, _, hp, h⟩
  · rw [h, components_nil]
    exact List.nil_prefix
  · rw [h, hp, components_append_slash, components_append_slash, components_nil, List.append_nil]
    exact List.prefix_append _ _

theorem isAbsolute_directory (h : isAbsolute path = true) : isAbsolute (directory path) = true := by
  obtain ⟨front, name, _, hp, hh⟩ := (head_cases path).resolve_left fun hn => by
    cases path with
    | nil => cases h
    | cons c rest =>
      have hc : c = '/' := by simpa [isAbsolute] using h
      exact hn.2 (by simp [hc])
  have ha : isAbsolute (head path) = true := by
    rw [hh]
    rw [hp] at h
    cases front with
    | nil => rfl
    | cons c front => exact h
  by_cases hd : directory path = []
  · obtain ⟨slashes, hs, he⟩ := exists_slashes_directory path
    rw [hd, List.nil_append] at he
    rw [directory, if_pos (List.all_eq_true.mpr fun c hc => by simp [hs c (he ▸ hc)])] at hd
    rw [hd] at ha
    cases ha
  · obtain ⟨slashes, _, he⟩ := exists_slashes_directory path
    rw [← isAbsolute_append hd slashes, ← he, ha]

/-- Where there is a root, no part of a normal form goes up. -/
theorem dots_notMem_normalParts (h : isAbsolute path = true) : ['.', '.'] ∉ normalParts path := by
  have run (todo done : List Text) (hd : ['.', '.'] ∉ done) :
      ['.', '.'] ∉ todo.foldl (push true) done := by
    induction todo generalizing done with
    | nil => exact hd
    | cons part todo ih =>
      refine ih _ ?_
      rw [push]
      split
      · exact hd
      · split
        · rename_i hp
          simp [hd, Ne.symm hp]
        · split
          · rename_i last hl
            rw [if_neg]
            · exact fun hm => hd (List.dropLast_subset done hm)
            · rintro rfl
              exact hd (List.mem_of_getLast? hl)
          · exact hd
  rw [normalParts, h]
  exact run _ [] (by simp)

theorem isName_of_mem_normalParts (h : isAbsolute path = true) {n : Text} (hn : n ∈ normalParts path) :
    IsName n := by
  obtain ⟨hne, hdot, hs⟩ := of_mem_normalParts hn
  exact ⟨hne, hdot, fun he => dots_notMem_normalParts h (he ▸ hn), hs⟩

/-- The directory of an absolute normal form is written in names. -/
theorem normalParts_directory (h : isAbsolute path = true) :
    (∀ n ∈ components (directory (normal path)), IsName n) ∧
      normalParts (directory (normal path)) = components (directory (normal path)) := by
  have hn : ∀ n ∈ components (directory (normal path)), IsName n := by
    intro n hm
    have hm := (components_directory_isPrefix (normal path)).subset hm
    rw [components_normal] at hm
    exact isName_of_mem_normalParts h hm
  exact ⟨hn, by rw [normalParts_eq, foldl_push_names _ hn, List.nil_append]⟩

/-- The directory that a path stands in. A name alone stands in the working directory. -/
def parent (path : Text) : Text := if directory path = [] then ['.'] else directory path

/-- The one slash behind a name is not part of the directory that the name ends. -/
theorem directory_of_head {c : Char} (hc : c ≠ '/') (h : head path = front ++ [c] ++ ['/']) :
    directory path = front ++ [c] := by
  rw [directory, h, if_neg (by simp [hc])]
  simp [hc]

/-- Names joined to a directory's path stand in the normal form of what is before the last of them. -/
theorem parent_normal_join (path : Text) {names : List Text} (h : ∀ n ∈ names, IsName n) {last : Text}
    (hl : IsName last) :
    parent (normal (join (join path (slashed names)) last)) = normal (join path (slashed names)) := by
  have hhead := (fileName_append (getLast?_root_slashed path (normalParts path ++ names))
    hl.no_slash).2
  have hr := root_join path (isAbsolute_slashed h)
  have hp := normalParts_join_slashed path h
  rw [normal_join path h hl]
  rcases List.eq_nil_or_concat (normalParts path ++ names) with hnil | ⟨front, n, hlast⟩
  · rw [hnil, slashed_nil, List.append_nil] at hhead ⊢
    have hall : (root path).all (· = '/') = true := by
      rcases root_cases path with ⟨hr, _⟩ | ⟨hr | hr, _⟩ <;> simp [hr]
    rw [parent, directory, hhead, if_pos hall, normal, hr, hp, hnil, Text.joinWith,
      List.intercalate_nil, List.append_nil]
    cases root path <;> simp
  · rw [List.concat_eq_append] at hlast
    rw [hlast] at hhead hp ⊢
    obtain ⟨hne, _, hslash⟩ := of_mem_normalParts (show n ∈ normalParts (join path (slashed names)) by
      simp [hp])
    obtain ⟨start, c, rfl⟩ := (List.eq_nil_or_concat n).resolve_left hne
    rw [List.concat_eq_append] at *
    have hc : c ≠ '/' := fun he => hslash (by simp [he])
    have hd : directory (root path ++ slashed (front ++ [start ++ [c]]) ++ last) =
        root path ++ slashed front ++ start ++ [c] :=
      directory_of_head hc (by rw [hhead]; simp)
    rw [parent, hd, if_neg (by simp)]
    rcases normal_eq (join path (slashed names)) with ⟨_, hnone, _⟩ | ⟨he, _⟩
    · rw [hp] at hnone
      simp at hnone
    · rw [he, hr, hp, joinWith_concat]
      simp

end PhotoNaming.Path
