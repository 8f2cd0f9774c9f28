import PhotoNaming.Path

/-! The parts of a path that count, and what they become when paths are joined and brought to their
normal form. Names put below a directory stay, whatever the directory's path looks like. -/
namespace PhotoNaming.Path

/-- A text that can name an entry of a directory. -/
structure IsName (t : Text) : Prop where
  ne_nil : t ≠ []
  ne_dot : t ≠ ['.']
  ne_dots : t ≠ ['.', '.']
  no_slash : '/' ∉ t

instance (t : Text) : Decidable (IsName t) :=
  decidable_of_iff (t ≠ [] ∧ t ≠ ['.'] ∧ t ≠ ['.', '.'] ∧ '/' ∉ t)
    ⟨fun h => ⟨h.1, h.2.1, h.2.2.1, h.2.2.2⟩,
      fun h => ⟨h.ne_nil, h.ne_dot, h.ne_dots, h.no_slash⟩⟩

/-- The parts of a path without those that lead nowhere else. -/
def components (path : Text) : List Text := (parts path).filter fun p => p ≠ [] ∧ p ≠ ['.']

/-- Names with a slash behind each. -/
def slashed (names : List Text) : Text := names.flatMap (· ++ ['/'])

@[simp] theorem slashed_nil : slashed [] = [] := rfl

@[simp] theorem slashed_cons (n : Text) (names : List Text) :
    slashed (n :: names) = n ++ '/' :: slashed names := by
  simp [slashed]

@[simp] theorem slashed_append (a b : List Text) : slashed (a ++ b) = slashed a ++ slashed b := by
  simp [slashed]

theorem parts_append_slash (a b : Text) : parts (a ++ '/' :: b) = parts a ++ parts b :=
  List.splitOn_append_cons_self a b

theorem parts_slash_cons (rest : Text) : parts ('/' :: rest) = [] :: parts rest :=
  parts_append_slash [] rest

theorem slash_notMem_of_mem_parts {path p : Text} (h : p ∈ parts path) : '/' ∉ p := by
  induction path generalizing p with
  | nil => simp_all [parts]
  | cons c rest ih =>
    rw [parts, List.splitOn_cons_eq_if_modifyHead] at h
    split at h
    · rcases List.mem_cons.mp h with rfl | h
      · simp
      · exact ih h
    · rename_i hc
      cases hs : rest.splitOn '/' with
      | nil => simp [hs] at h
      | cons first others =>
        rw [parts, hs] at ih
        rw [hs, List.modifyHead_cons] at h
        rcases List.mem_cons.mp h with rfl | h
        · have hf := ih (p := first) (by simp)
          rw [beq_iff_eq] at hc
          simp [hf, Ne.symm hc]
        · exact ih (List.mem_cons_of_mem _ h)

theorem parts_name {n : Text} (h : '/' ∉ n) : parts n = [n] := List.splitOn_eq_singleton h

theorem components_append_slash (a b : Text) :
    components (a ++ '/' :: b) = components a ++ components b := by
  rw [components, parts_append_slash, List.filter_append]
  rfl

@[simp] theorem components_nil : components [] = [] := by decide

theorem components_name {n : Text} (h : IsName n) : components n = [n] := by
  simp [components, parts_name h.no_slash, h.ne_nil, h.ne_dot]

theorem components_slashed {names : List Text} (h : ∀ n ∈ names, IsName n) (rest : Text) :
    components (slashed names ++ rest) = names ++ components rest := by
  induction names with
  | nil => rfl
  | cons n names ih =>
    have hn := components_name (h n (by simp))
    have ht := ih fun m hm => h m (by simp [hm])
    rw [slashed_cons, List.append_assoc, List.cons_append, components_append_slash, hn, ht]
    rfl

theorem joinWith_concat (names : List Text) (n : Text) :
    Text.joinWith ['/'] (names ++ [n]) = slashed names ++ n := by
  induction names with
  | nil => simp [Text.joinWith]
  | cons m names ih =>
    rw [Text.joinWith, List.cons_append, List.intercalate_cons_of_ne_nil (by simp)]
    rw [Text.joinWith] at ih
    simp [ih]

theorem slashed_eq {names : List Text} (h : names ≠ []) :
    slashed names = Text.joinWith ['/'] names ++ ['/'] := by
  obtain ⟨front, last, rfl⟩ := (List.eq_nil_or_concat names).resolve_left h
  rw [List.concat_eq_append, joinWith_concat, slashed_append, slashed_cons, slashed_nil,
    List.append_assoc]

theorem slashed_parts (path : Text) : slashed (parts path) = path ++ ['/'] := by
  have hne : parts path ≠ [] := List.splitOn_ne_nil '/' path
  rw [slashed_eq hne, Text.joinWith, parts, List.intercalate_splitOn]

/-- Names put together with a slash between neighbours are the parts of what they make. -/
theorem parts_joinWith {names : List Text} (hne : names ≠ []) (h : ∀ n ∈ names, '/' ∉ n) :
    parts (Text.joinWith ['/'] names) = names :=
  List.splitOn_intercalate '/' h hne

theorem push_name (rooted : Bool) (done : List Text) {n : Text} (h : IsName n) :
    push rooted done n = done ++ [n] := by
  simp [push, h.ne_nil, h.ne_dot, h.ne_dots]

theorem foldl_push_names (rooted : Bool) {names : List Text} (h : ∀ n ∈ names, IsName n)
    (done : List Text) : names.foldl (push rooted) done = done ++ names := by
  induction names generalizing done with
  | nil => simp
  | cons n names ih =>
    rw [List.foldl_cons, push_name rooted done (h n (by simp)), ih fun m hm => h m (by simp [hm])]
    simp

theorem mem_push {rooted : Bool} {done : List Text} {part p : Text}
    (h : p ∈ push rooted done part) : p ∈ done ∨ (p = part ∧ part ≠ [] ∧ part ≠ ['.']) := by
  by_cases hs : part = [] ∨ part = ['.']
  · rw [push, if_pos hs] at h
    exact .inl h
  · rw [push, if_neg hs] at h
    have added (hp : p ∈ done ++ [part]) : p ∈ done ∨ (p = part ∧ part ≠ [] ∧ part ≠ ['.']) := by
      simpa [not_or.mp hs] using hp
    split at h
    · exact added h
    · split at h
      · split at h
        · exact added h
        · exact .inl (List.dropLast_subset done h)
      · split at h
        · exact .inl h
        · exact added h

theorem normalParts_eq (path : Text) :
    normalParts path = (components path).foldl (push (isAbsolute path)) [] := by
  rw [normalParts, components, List.foldl_filter]
  congr 1
  funext done part
  by_cases h : part = [] ∨ part = ['.']
  · rcases h with rfl | rfl <;> simp [push]
  · simp_all

theorem of_mem_normalParts {path p : Text} (h : p ∈ normalParts path) :
    p ≠ [] ∧ p ≠ ['.'] ∧ '/' ∉ p := by
  have run (todo done : List Text) (hd : ∀ q ∈ done, q ≠ [] ∧ q ≠ ['.'] ∧ '/' ∉ q)
      (ht : ∀ q ∈ todo, '/' ∉ q) :
      ∀ q ∈ todo.foldl (push (isAbsolute path)) done, q ≠ [] ∧ q ≠ ['.'] ∧ '/' ∉ q := by
    induction todo generalizing done with
    | nil => exact hd
    | cons part todo ih =>
      refine ih _ (fun q hq => ?_) fun q hq => ht q (by simp [hq])
      rcases mem_push hq with hq | ⟨rfl, hn, hdot⟩
      · exact hd q hq
      · exact ⟨hn, hdot, ht q (by simp)⟩
  exact run _ _ (by simp) (fun _ hq => slash_notMem_of_mem_parts hq) p h

end PhotoNaming.Path
