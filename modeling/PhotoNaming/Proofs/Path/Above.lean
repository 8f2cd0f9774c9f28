import PhotoNaming.Proofs.Path.Normal

/-! Paths cut at their slashes: the directories above a path, the slashes at its end, and the parts of
names joined to a directory's path. -/
namespace PhotoNaming.Path

theorem mem_headsBehind {before text h : Text} (hm : h ∈ headsBehind before text) :
    ∃ front back, text = front ++ '/' :: back ∧ h = before ++ front ∧ h ≠ [] ∧
      h.getLast? ≠ some '/' := by
  induction text generalizing before with
  | nil => simp [headsBehind] at hm
  | cons c rest ih =>
    have later (hm : h ∈ headsBehind (before ++ [c]) rest) :
        ∃ front back, c :: rest = front ++ '/' :: back ∧ h = before ++ front ∧ h ≠ [] ∧
          h.getLast? ≠ some '/' := by
      obtain ⟨front, back, hr, hh, hne⟩ := ih hm
      exact ⟨c :: front, back, by rw [hr]; rfl, by rw [hh]; simp, hne⟩
    rw [headsBehind] at hm
    split at hm
    · rename_i hc
      obtain ⟨rfl, hb⟩ := hc
      rcases List.mem_cons.mp hm with rfl | hm
      · exact ⟨[], rest, rfl, by simp, hb⟩
      · exact later hm
    · exact later hm

/-- A path above another one is cut off before one of its slashes. -/
theorem mem_above {path h : Text} (hm : h ∈ above path) :
    ∃ rest, bare path = h ++ '/' :: rest ∧ h ≠ [] ∧ h.getLast? ≠ some '/' := by
  obtain ⟨front, back, ht, hh, hne⟩ := mem_headsBehind hm
  rw [List.nil_append] at hh
  exact ⟨back, by rw [ht, hh], hne⟩

theorem bare_of_getLast? {path : Text} (h : path.getLast? ≠ some '/') : bare path = path := by
  rcases List.eq_nil_or_concat path with rfl | ⟨front, c, rfl⟩
  · rfl
  · rw [List.concat_eq_append, List.getLast?_concat] at h
    have hc : c ≠ '/' := fun he => h (by rw [he])
    simp [bare, hc]

theorem bare_append_slash {path : Text} (hn : path ≠ []) (h : path.getLast? ≠ some '/') :
    bare (path ++ ['/']) = path := by
  rcases List.eq_nil_or_concat path with rfl | ⟨front, c, rfl⟩
  · exact absurd rfl hn
  · rw [List.concat_eq_append, List.getLast?_concat] at h
    have hc : c ≠ '/' := fun he => h (by rw [he])
    simp [bare, hc]

theorem parts_slashed {names : List Text} (h : ∀ n ∈ names, '/' ∉ n) (rest : Text) :
    parts (slashed names ++ rest) = names ++ parts rest := by
  induction names with
  | nil => rfl
  | cons n names ih =>
    have ht := ih fun m hm => h m (by simp [hm])
    rw [slashed_cons, List.append_assoc, List.cons_append, parts_append_slash,
      parts_name (h n (by simp)), ht]
    rfl

/-- What is joined to a directory's path comes behind the parts of that path. -/
theorem exists_parts_join {directory : Text} (hd : directory ≠ []) :
    ∃ front, (parts directory = front ∨ parts directory = front ++ [[]]) ∧
      ∀ next, isAbsolute next = false → parts (join directory next) = front ++ parts next := by
  rcases join_nil_cases directory with ⟨_, he⟩ | ⟨front, he, hj⟩ | ⟨front, c, _, he, hj⟩
  · exact absurd he hd
  · refine ⟨parts front, .inr ?_, ?_⟩
    · rw [he, parts_append_slash]
      rfl
    · intro next hn
      rw [join_eq directory hn, hj, List.append_assoc]
      exact parts_append_slash front next
  · refine ⟨parts directory, .inl rfl, ?_⟩
    intro next hn
    rw [join_eq directory hn, hj, ← he, List.append_assoc]
    exact parts_append_slash directory next

theorem getLast?_append_name (front : Text) {name : Text} (hn : IsName name) :
    (front ++ name).getLast? ≠ some '/' := by
  intro h
  rw [List.getLast?_append] at h
  cases hg : name.getLast? with
  | none => exact hn.ne_nil (List.getLast?_eq_none_iff.mp hg)
  | some c =>
    rw [hg, Option.some_or, Option.some.injEq] at h
    exact hn.no_slash (h ▸ List.mem_of_getLast? hg)

theorem join_slashed_concat (directory : Text) {names : List Text} (h : ∀ n ∈ names, IsName n)
    {last : Text} (hl : IsName last) :
    join directory (slashed (names ++ [last])) = join directory (slashed names ++ last) ++ ['/'] := by
  have hall : ∀ n ∈ names ++ [last], IsName n := by
    intro n hn
    rcases List.mem_append.mp hn with hn | hn
    · exact h n hn
    · exact List.mem_singleton.mp hn ▸ hl
  rw [join_slashed directory hall, join_eq directory (isAbsolute_slashed_append h hl.isAbsolute),
    slashed_append, slashed_cons, slashed_nil, List.append_assoc, List.append_assoc]

/-- Directories that are joined level by level are written without their last slash. -/
theorem bare_join (directory : Text) {names : List Text} (h : ∀ n ∈ names, IsName n) {last : Text}
    (hl : IsName last) :
    bare (join directory (slashed (names ++ [last]))) = join directory (slashed names ++ last) := by
  rw [join_slashed_concat directory h hl, join_eq directory (isAbsolute_slashed_append h hl.isAbsolute)]
  refine bare_append_slash (by simp [hl.ne_nil]) ?_
  rw [← List.append_assoc]
  exact getLast?_append_name _ hl

end PhotoNaming.Path
