import PhotoNaming.Proofs.Path.Components
import Mathlib.Data.List.Flatten

/-! Normal forms of paths. A normal form has the root and the parts of its path, and names that are
joined to a directory's path stand at the end of the normal form, behind the directory's own. -/
namespace PhotoNaming.Path

theorem normal_eq (path : Text) :
    normal path = ['.'] ∧ normalParts path = [] ∧ root path = [] ∨
      normal path = root path ++ Text.joinWith ['/'] (normalParts path) ∧
        (root path ≠ [] ∨ normalParts path ≠ []) := by
  unfold normal
  split
  · rename_i h
    rw [List.append_eq_nil_iff] at h
    refine .inl ⟨rfl, ?_, h.1⟩
    rcases List.eq_nil_or_concat (normalParts path) with he | ⟨ps, p, he⟩
    · exact he
    · have hp := (of_mem_normalParts (show p ∈ normalParts path by simp [he])).1
      simp [he, joinWith_concat, hp] at h
  · rename_i h
    refine .inr ⟨rfl, ?_⟩
    by_cases hr : root path = []
    · exact .inr fun hn => h (by simp [hr, hn, Text.joinWith])
    · exact .inl hr

theorem root_cases (path : Text) :
    root path = [] ∧ isAbsolute path = false ∨
      (root path = ['/'] ∨ root path = ['/', '/']) ∧ isAbsolute path = true := by
  cases path with
  | nil => exact .inl ⟨rfl, rfl⟩
  | cons c rest =>
    by_cases hc : c = '/'
    · subst hc
      refine .inr ⟨?_, by simp [isAbsolute]⟩
      unfold root
      split <;> simp_all
    · exact .inl ⟨by simp [root, hc], by simp [isAbsolute, hc]⟩

/-- A root with names behind it is nothing, or ends with a slash. -/
theorem getLast?_root_slashed (path : Text) (names : List Text) :
    root path ++ slashed names = [] ∨ (root path ++ slashed names).getLast? = some '/' := by
  rcases List.eq_nil_or_concat names with rfl | ⟨front, last, rfl⟩
  · rcases root_cases path with ⟨hr, _⟩ | ⟨hr | hr, _⟩ <;> simp [hr]
  · exact .inr (by simp)

theorem push_sublist (rooted : Bool) (done : List Text) (part : Text) :
    (push rooted done part).Sublist (done ++ [part]) := by
  have kept : done.Sublist (done ++ [part]) := List.sublist_append_left done [part]
  unfold push
  split
  · exact kept
  · split
    · exact .refl _
    · split
      · split
        · exact .refl _
        · exact (List.dropLast_sublist done).trans kept
      · split
        · exact kept
        · exact .refl _

theorem foldl_push_sublist (rooted : Bool) (done todo : List Text) :
    (todo.foldl (push rooted) done).Sublist (done ++ todo) := by
  induction todo generalizing done with
  | nil => simp
  | cons part todo ih =>
    have hstep := (push_sublist rooted done part).append_right todo
    rw [List.append_assoc, List.singleton_append] at hstep
    exact (ih _).trans hstep

theorem components_root_append (path rest : Text) :
    components (root path ++ rest) = components rest := by
  rcases root_cases path with ⟨h, _⟩ | ⟨h | h, _⟩ <;> rw [h]
  · rfl
  · exact components_append_slash [] rest
  · exact components_append_slash ['/'] rest

/-- The parts that count of a normal form are the parts it is made of. -/
theorem components_normal (path : Text) : components (normal path) = normalParts path := by
  rcases normal_eq path with ⟨h, hn, _⟩ | ⟨h, _⟩
  · rw [h, hn]
    decide
  · rw [h, components_root_append]
    by_cases hn : normalParts path = []
    · simp [hn, Text.joinWith]
    · rw [components, parts_joinWith hn fun _ hq => (of_mem_normalParts hq).2.2, List.filter_eq_self]
      intro q hq
      have hq := of_mem_normalParts hq
      simp [hq.1, hq.2.1]

/-- The parts of a normal form are those it is made of, behind some that lead nowhere else. -/
theorem exists_parts_normal (path : Text) :
    ∃ slack, (∀ part ∈ slack, part = [] ∨ part = ['.']) ∧
      parts (normal path) = slack ++ normalParts path := by
  rcases normal_eq path with ⟨h, hn, _⟩ | ⟨h, _⟩
  · exact ⟨[['.']], by simp, by rw [h, hn]; rfl⟩
  · have hroot : ∃ slack, (∀ part ∈ slack, part = [] ∨ part = ['.']) ∧
        ∀ rest, parts (root path ++ rest) = slack ++ parts rest := by
      rcases root_cases path with ⟨hr, _⟩ | ⟨hr | hr, _⟩
      · exact ⟨[], by simp, fun rest => by rw [hr]; rfl⟩
      · exact ⟨[[]], by simp, fun rest => by rw [hr]; exact parts_slash_cons rest⟩
      · exact ⟨[[], []], by simp, fun rest => by
          rw [hr]
          exact (parts_slash_cons _).trans (congrArg _ (parts_slash_cons rest))⟩
    obtain ⟨slack, hs, hp⟩ := hroot
    rw [h, hp]
    by_cases hn : normalParts path = []
    · rw [hn]
      refine ⟨slack ++ [[]], fun part hm => ?_, (List.append_nil _).symm⟩
      rcases List.mem_append.mp hm with hm | hm
      · exact hs part hm
      · exact .inl (List.mem_singleton.mp hm)
    · exact ⟨slack, hs, by rw [parts_joinWith hn fun p hp => (of_mem_normalParts hp).2.2]⟩

/-- A normal form begins with its root and then, if at all, with another character. -/
theorem takeWhile_normal (path : Text) : (normal path).takeWhile (· = '/') = root path := by
  rcases normal_eq path with ⟨h, _, hr⟩ | ⟨h, _⟩
  · rw [h, hr]
    decide
  · have hall : ∀ c ∈ root path, decide (c = '/') = true := by
      rcases root_cases path with ⟨hr, _⟩ | ⟨hr | hr, _⟩ <;> simp [hr]
    rw [h, List.takeWhile_append_of_pos hall]
    cases hn : normalParts path with
    | nil => simp [Text.joinWith]
    | cons first others =>
      have hf := of_mem_normalParts (show first ∈ normalParts path by simp [hn])
      cases first with
      | nil => exact absurd rfl hf.1
      | cons c first =>
        have hc : c ≠ '/' := by
          rintro rfl
          exact hf.2.2 (by simp)
        cases others <;> simp [Text.joinWith, hc]

theorem root_normal (path : Text) : root (normal path) = root path := by
  rw [root, takeWhile_normal]
  rcases root_cases path with ⟨h, _⟩ | ⟨h | h, _⟩ <;> rw [h]

theorem isAbsolute_normal (path : Text) : isAbsolute (normal path) = isAbsolute path := by
  have ht := takeWhile_normal path
  cases hn : normal path with
  | nil =>
    rw [hn, List.takeWhile_nil] at ht
    rcases root_cases path with ⟨_, ha⟩ | ⟨hr | hr, _⟩
    · rw [ha]
      rfl
    · simp [hr] at ht
    · simp [hr] at ht
  | cons c rest =>
    rw [hn] at ht
    by_cases hc : c = '/'
    · subst hc
      rcases root_cases path with ⟨hr, _⟩ | ⟨_, ha⟩
      · simp [hr] at ht
      · rw [ha]
        rfl
    · rcases root_cases path with ⟨_, ha⟩ | ⟨hr | hr, _⟩
      · rw [ha]
        simp [isAbsolute, hc]
      · simp [hr, hc] at ht
      · simp [hr, hc] at ht

theorem root_isPrefix (path : Text) : root path <+: path := by
  have ht := List.takeWhile_prefix (p := fun c => decide (c = '/')) (l := path)
  have hall := List.all_takeWhile (p := fun c => decide (c = '/')) (l := path)
  rw [root]
  cases he : path.takeWhile (fun c => decide (c = '/')) with
  | nil => exact List.nil_prefix
  | cons a others =>
    rw [he] at ht hall
    obtain ⟨ha, hothers⟩ : a = '/' ∧ ∀ c ∈ others, c = '/' := by simpa using hall
    subst ha
    split
    · contradiction
    · rename_i b heq
      obtain ⟨_, rfl⟩ := List.cons.inj heq
      rwa [hothers b (by simp)] at ht
    · exact (List.cons_prefix_cons.mpr ⟨rfl, List.nil_prefix⟩).trans ht

/-- What a normal form is made of is found in the path, in the same order. -/
theorem root_append_sublist (path : Text) :
    (root path ++ Text.joinWith ['/'] (normalParts path)).Sublist path := by
  by_cases hn : normalParts path = []
  · rw [hn, Text.joinWith, List.intercalate_nil, List.append_nil]
    exact (root_isPrefix path).sublist
  · obtain ⟨rest, hrest⟩ := root_isPrefix path
    have hparts : (normalParts path).Sublist (parts rest) := by
      have hc : components path = components rest := by
        rw [← components_root_append path rest, hrest]
      rw [normalParts_eq, hc]
      exact (foldl_push_sublist _ [] _).trans List.filter_sublist
    have hs : (slashed (normalParts path)).Sublist (slashed (parts rest)) := hparts.flatMap _
    rw [slashed_eq hn, slashed_parts, List.append_sublist_append_right] at hs
    have hall := hs.append_left (root path)
    rwa [hrest] at hall

/-- Relative paths are put behind a directory's path and, where it is missing, a slash. -/
theorem join_eq (directory : Text) {next : Text} (h : isAbsolute next = false) :
    join directory next = join directory [] ++ next := by
  unfold join
  simp only [h]
  split <;> split <;> simp_all [isAbsolute]

/-- A directory's path gets a slash behind it unless it is empty or has one. -/
theorem join_nil_cases (directory : Text) :
    join directory [] = [] ∧ directory = [] ∨
      (∃ front, directory = front ++ ['/'] ∧ join directory [] = front ++ ['/']) ∨
      ∃ front c, c ≠ '/' ∧ directory = front ++ [c] ∧ join directory [] = front ++ [c] ++ ['/'] := by
  rcases List.eq_nil_or_concat directory with rfl | ⟨front, c, rfl⟩
  · exact .inl ⟨rfl, rfl⟩
  · rw [List.concat_eq_append]
    by_cases hc : c = '/'
    · subst hc
      exact .inr (.inl ⟨front, rfl, by simp [join, isAbsolute]⟩)
    · exact .inr (.inr ⟨front, c, hc, rfl, by simp [join, isAbsolute, hc]⟩)

theorem components_join (directory : Text) {next : Text} (h : isAbsolute next = false) :
    components (join directory next) = components directory ++ components next := by
  rw [join_eq directory h]
  rcases join_nil_cases directory with ⟨hj, hd⟩ | ⟨front, hd, hj⟩ | ⟨front, c, _, hd, hj⟩
  · rw [hj, hd]
    rfl
  · have hf := components_append_slash front []
    rw [components_nil, List.append_nil] at hf
    rw [hj, hd, hf]
    simpa using components_append_slash front next
  · rw [hj, hd]
    simpa using components_append_slash (front ++ [c]) next

theorem isAbsolute_join (directory : Text) {next : Text} (h : isAbsolute next = false) :
    isAbsolute (join directory next) = isAbsolute directory := by
  rw [join_eq directory h]
  rcases join_nil_cases directory with ⟨hj, hd⟩ | ⟨front, hd, hj⟩ | ⟨front, c, _, hd, hj⟩
  · rw [hj, hd]
    exact h
  · rw [hj, hd]
    cases front <;> simp [isAbsolute]
  · rw [hj, hd]
    cases front <;> simp [isAbsolute]

private theorem takeWhile_append_of_nil {p : Char → Bool} (a : Text) {b : Text}
    (h : b.takeWhile p = []) : (a ++ b).takeWhile p = a.takeWhile p := by
  rw [List.takeWhile_append, h, List.append_nil]
  split
  · rename_i hl
    exact ((List.takeWhile_prefix p).eq_of_length hl).symm
  · rfl

theorem root_join (directory : Text) {next : Text} (h : isAbsolute next = false) :
    root (join directory next) = root directory := by
  have hn : next.takeWhile (· = '/') = [] := by
    cases next with
    | nil => rfl
    | cons c next =>
      rw [isAbsolute] at h
      exact List.takeWhile_cons_of_neg (by simpa using h)
  have ht : (join directory next).takeWhile (· = '/') = directory.takeWhile (· = '/') := by
    rw [join_eq directory h]
    rcases join_nil_cases directory with ⟨hj, hd⟩ | ⟨front, hd, hj⟩ | ⟨front, c, hc, hd, hj⟩
    · rw [hj, hd]
      exact hn
    · rw [hj, hd]
      exact takeWhile_append_of_nil _ hn
    · rw [hj, hd, List.append_assoc, List.append_assoc,
        takeWhile_append_of_nil front (by simp [hc]), takeWhile_append_of_nil front (by simp [hc])]
  simp only [root, ht]

theorem IsName.isAbsolute {n : Text} (h : IsName n) : Path.isAbsolute n = false := by
  cases n with
  | nil => rfl
  | cons c n =>
    have hc : c ≠ '/' := by
      rintro rfl
      exact h.no_slash (by simp)
    simp [Path.isAbsolute, hc]

theorem isAbsolute_slashed_append {names : List Text} (h : ∀ n ∈ names, IsName n) {rest : Text}
    (hr : isAbsolute rest = false) : isAbsolute (slashed names ++ rest) = false := by
  cases names with
  | nil => exact hr
  | cons m names =>
    have hm := h m (by simp)
    have ha := hm.isAbsolute
    cases m with
    | nil => exact absurd rfl hm.ne_nil
    | cons c m => simpa [Path.isAbsolute] using ha

theorem isAbsolute_slashed {names : List Text} (h : ∀ n ∈ names, IsName n) :
    isAbsolute (slashed names) = false := by
  have ha : isAbsolute (slashed names ++ []) = false := isAbsolute_slashed_append h rfl
  rwa [List.append_nil] at ha

theorem join_nil_of_slash {path : Text} (h : path = [] ∨ path.getLast? = some '/') :
    join path [] = path := by
  rcases h with rfl | h
  · rfl
  · simp [join, isAbsolute, h]

theorem join_slashed (directory : Text) {names : List Text} (h : ∀ n ∈ names, IsName n) :
    join directory (slashed names) = join directory [] ++ slashed names :=
  join_eq directory (isAbsolute_slashed h)

/-- Joining level by level is joining at once. -/
theorem join_join (directory : Text) {names : List Text} (h : ∀ n ∈ names, IsName n) {next : Text}
    (hn : isAbsolute next = false) :
    join (join directory (slashed names)) next = join directory (slashed names ++ next) := by
  have hs : join directory (slashed names) = [] ∨
      (join directory (slashed names)).getLast? = some '/' := by
    rw [join_slashed directory h]
    rcases List.eq_nil_or_concat names with rfl | ⟨front, n, rfl⟩
    · rcases join_nil_cases directory with ⟨hj, _⟩ | ⟨_, _, hj⟩ | ⟨_, _, _, _, hj⟩ <;> simp [hj]
    · simp
  rw [join_eq _ hn, join_nil_of_slash hs, join_slashed directory h, List.append_assoc,
    ← join_eq directory (isAbsolute_slashed_append h hn)]

theorem normalParts_join (directory : Text) {next : Text} (h : isAbsolute next = false) :
    normalParts (join directory next) =
      (components next).foldl (push (isAbsolute directory)) (normalParts directory) := by
  rw [normalParts_eq, components_join directory h, isAbsolute_join directory h, List.foldl_append,
    ← normalParts_eq]

theorem normalParts_join_names (directory : Text) {names : List Text}
    (h : ∀ n ∈ names, IsName n) {next : Text} (hn : isAbsolute next = false)
    (hc : ∀ n ∈ components next, IsName n) :
    normalParts (join directory (slashed names ++ next)) =
      normalParts directory ++ names ++ components next := by
  rw [normalParts_join directory (isAbsolute_slashed_append h hn), components_slashed h,
    foldl_push_names _ fun n hm => (List.mem_append.mp hm).elim (h n) (hc n), List.append_assoc]

theorem normalParts_join_slashed (directory : Text) {names : List Text}
    (h : ∀ n ∈ names, IsName n) :
    normalParts (join directory (slashed names)) = normalParts directory ++ names := by
  have hc := components_slashed h []
  rw [List.append_nil, components_nil, List.append_nil] at hc
  rw [normalParts_join directory (isAbsolute_slashed h), hc, foldl_push_names _ h]

theorem normal_join_nil (directory : Text) : normal (join directory []) = normal directory := by
  have hp := normalParts_join_slashed directory (List.forall_mem_nil IsName)
  rw [slashed_nil, List.append_nil] at hp
  rw [normal, normal, hp, root_join directory rfl]

/-- Names below a directory, in full: its normal form is written before them. -/
theorem normal_join (directory : Text) {names : List Text} (h : ∀ n ∈ names, IsName n) {n : Text}
    (hn : IsName n) :
    normal (join (join directory (slashed names)) n) =
      root directory ++ slashed (normalParts directory ++ names) ++ n := by
  rw [join_join directory h hn.isAbsolute]
  have hp := normalParts_join_names directory h hn.isAbsolute (by simp [components_name hn, hn])
  rw [components_name hn] at hp
  have hr := root_join directory (isAbsolute_slashed_append h hn.isAbsolute)
  rcases normal_eq (join directory (slashed names ++ n)) with ⟨_, he, _⟩ | ⟨he, _⟩
  · simp [hp] at he
  · rw [he, hp, hr, joinWith_concat, List.append_assoc]

end PhotoNaming.Path
