import PhotoNaming.Path
import PhotoNaming.Proofs.Text.Decoding

/-! Extensions: where a name is cut before its extension, and that a stem and its extension can be
told apart again in what they make together. -/
namespace PhotoNaming.Path

/-- Nothing, or a dot and characters other than dots. -/
def IsExtension (t : Text) : Prop := t = [] ∨ ∃ rest, t = '.' :: rest ∧ '.' ∉ rest

private theorem ne_of_mem_reverse {c : Char} {t : Text} (h : c ∉ t) :
    ∀ d ∈ t.reverse, decide (d ≠ c) = true := by
  intro d hd
  simp only [decide_eq_true_eq]
  rintro rfl
  exact h (List.mem_reverse.mp hd)

theorem splitName_of_notMem {name : Text} (h : '.' ∉ name) : splitName name = (name, []) := by
  have hd : (name.reverse ++ []).dropWhile (fun c => decide (c ≠ '.')) = [].dropWhile _ :=
    List.dropWhile_append_of_pos (ne_of_mem_reverse h)
  rw [List.append_nil, List.dropWhile_nil] at hd
  simp only [splitName, hd, List.reverse_nil, List.dropLast_nil, List.all_nil, if_true]

theorem splitName_append (stem : Text) {rest : Text} (h : '.' ∉ rest) :
    splitName (stem ++ '.' :: rest) =
      if stem.all (· = '.') then (stem ++ '.' :: rest, []) else (stem, '.' :: rest) := by
  have hd : (stem ++ '.' :: rest).reverse.dropWhile (fun c => decide (c ≠ '.')) =
      '.' :: stem.reverse := by
    rw [List.reverse_append, List.reverse_cons, List.append_assoc, List.singleton_append,
      List.dropWhile_append_of_pos (ne_of_mem_reverse h)]
    exact List.dropWhile_cons_of_neg (by simp)
  simp only [splitName, hd, List.reverse_cons, List.reverse_reverse, List.dropLast_concat,
    List.drop_left]

/-- A name is left whole, or cut before its last dot. -/
theorem splitName_cases (name : Text) :
    splitName name = (name, []) ∨
      ∃ stem rest, '.' ∉ rest ∧ name = stem ++ '.' :: rest ∧ splitName name = (stem, '.' :: rest) := by
  by_cases hm : '.' ∈ name
  · obtain ⟨back, front, he, hb⟩ := List.eq_append_cons_of_mem (List.mem_reverse.mpr hm)
    have hn : name = front.reverse ++ '.' :: back.reverse := by
      have hr := congrArg List.reverse he
      simpa using hr
    have hb' : '.' ∉ back.reverse := by simpa using hb
    have hs := splitName_append front.reverse hb'
    rw [← hn] at hs
    split at hs
    · exact .inl hs
    · exact .inr ⟨_, _, hb', hn, hs⟩
  · exact .inl (splitName_of_notMem hm)

theorem splitName_append_eq (name : Text) : (splitName name).1 ++ (splitName name).2 = name := by
  rcases splitName_cases name with h | ⟨stem, rest, _, hn, h⟩
  · simp [h]
  · simp [h, ← hn]

theorem isExtension_splitName (name : Text) : IsExtension (splitName name).2 := by
  rcases splitName_cases name with h | ⟨stem, rest, hr, _, h⟩
  · exact .inl (by rw [h])
  · exact .inr ⟨rest, by rw [h], hr⟩

/-- An extension behind a stem that is more than dots is found again. -/
theorem splitName_append_extension {stem extension : Text} (hx : IsExtension extension)
    (hd : extension = [] → '.' ∉ stem) {c : Char} (hc : c ∈ stem) (hcd : c ≠ '.') :
    splitName (stem ++ extension) = (stem, extension) := by
  rcases hx with rfl | ⟨rest, rfl, hr⟩
  · rw [List.append_nil]
    exact splitName_of_notMem (hd rfl)
  · rw [splitName_append stem hr, if_neg]
    intro ha
    exact hcd (by simpa using List.all_eq_true.mp ha c hc)

theorem append_extension_inj {stem extension stem' extension' : Text} (hx : IsExtension extension)
    (hx' : IsExtension extension') (hd : extension = [] → '.' ∉ stem)
    (hd' : extension' = [] → '.' ∉ stem') (h : stem ++ extension = stem' ++ extension') :
    stem = stem' ∧ extension = extension' := by
  rcases hx with rfl | ⟨rest, rfl, hr⟩ <;> rcases hx' with rfl | ⟨rest', rfl, hr'⟩
  · exact ⟨by simpa using h, rfl⟩
  · rw [List.append_nil] at h
    exact absurd (by rw [h]; simp) (hd rfl)
  · rw [List.append_nil] at h
    exact absurd (by rw [← h]; simp) (hd' rfl)
  · obtain ⟨hs, he⟩ := Text.append_cons_inj hr hr' h
    exact ⟨hs, by rw [he]⟩

variable {front name : Text}

/-- A name behind a path that ends with a slash, or behind nothing, is the file name. -/
theorem fileName_append (hf : front = [] ∨ front.getLast? = some '/') (hn : '/' ∉ name) :
    fileName (front ++ name) = name ∧ head (front ++ name) = front := by
  have ht := ne_of_mem_reverse hn
  rw [fileName, head, List.reverse_append, List.takeWhile_append_of_pos ht,
    List.dropWhile_append_of_pos ht]
  rcases hf with rfl | hf
  · simp
  · obtain ⟨start, rfl⟩ := List.getLast?_eq_some_iff.mp hf
    simp

theorem splitExtension_append (hf : front = [] ∨ front.getLast? = some '/') (hn : '/' ∉ name) :
    splitExtension (front ++ name) = (front ++ (splitName name).1, (splitName name).2) := by
  obtain ⟨he, hh⟩ := fileName_append hf hn
  rw [splitExtension, he, hh]

/-- The extension of a path is what is cut off it. -/
theorem extension_of_splitExtension {path extension : Text}
    (h : splitExtension path = (front, extension)) : Path.extension path = extension :=
  congrArg Prod.snd h

theorem slash_notMem_fileName (path : Text) : '/' ∉ fileName path := by
  intro h
  have hw := List.all_eq_true.mp List.all_takeWhile _ (List.mem_reverse.mp h)
  simp at hw

theorem slash_notMem_extension (path : Text) : '/' ∉ extension path := by
  intro h
  have hs := splitName_append_eq (fileName path)
  exact slash_notMem_fileName path (hs ▸ List.mem_append_right _ h)

end PhotoNaming.Path
