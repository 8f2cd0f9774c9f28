import PhotoNaming.Proofs.FileName.Shape

/-! The extension of a photo's new name. A valid one that the pattern writes is kept, unless nothing but dots
stands before it; in every other case the photo keeps its own. -/
namespace PhotoNaming.FileName

/-- A name cut before its ending, which is one of some extensions in whatever case. -/
def EndsIn (extensions : List Text) (name stem ending : Text) : Prop :=
  name = stem ++ ending ∧ Text.lowered ending ∈ extensions

/-- Extensions begin with a dot and have no other one. -/
def DotFirst (extensions : List Text) : Prop :=
  ∀ x ∈ extensions, ∃ letters, x = '.' :: letters ∧ '.' ∉ letters

/-- A name with `_` in place of every dot. -/
def undotted (name : Text) : Text := name.map fun c => if c = '.' then '_' else c

variable {extensions : List Text} {name stem ending : Text}

/-- What reads as an extension in lower case is one. -/
theorem exists_of_lowered {letters : Text} (h : Text.lowered ending = '.' :: letters)
    (hl : '.' ∉ letters) : ∃ rest, ending = '.' :: rest ∧ '.' ∉ rest := by
  cases ending with
  | nil => cases h
  | cons c rest =>
    have hhead : (Text.lowered [c]).head? = some '.' := by
      rw [← Text.head?_lowered c rest, h, List.head?_cons]
    obtain rfl : '.' = c := by
      have hm := Text.dot_mem_loweredBehind_iff.mp (List.mem_of_head? hhead)
      exact List.mem_singleton.mp hm
    have htail : Text.loweredBehind ['.'] rest = letters := List.cons.inj h |>.2
    refine ⟨rest, rfl, fun hm => hl ?_⟩
    rw [← htail]
    exact Text.dot_mem_loweredBehind_iff.mpr hm

theorem EndsIn.exists_rest (h : EndsIn extensions name stem ending) (hx : DotFirst extensions) :
    ∃ rest, ending = '.' :: rest ∧ '.' ∉ rest := by
  obtain ⟨letters, he, hl⟩ := hx _ h.2
  exact exists_of_lowered he hl

variable (r : Record) (pattern : Pattern) (valid : List Text)

/-- What a photo's name is made of when its pattern writes no valid extension. -/
def ownParts : Text × Text :=
  (undotted (sanitized (pattern.render r)), Path.extension r.source)

theorem parts_eq :
    parts r pattern valid =
      let cut := Path.splitName (sanitized (pattern.render r))
      if cut.2 ≠ [] ∧ Text.lowered cut.2 ∈ valid then cut else ownParts r pattern := by
  have hs := Path.splitExtension_append (.inl rfl : [] = [] ∨ _)
    (slash_notMem_sanitized (pattern.render r))
  rw [List.nil_append, List.nil_append] at hs
  simp only [parts, hs]
  rfl

/-- The name that the pattern makes is cut before a valid extension that it ends in, if there is more than
dots before that. Otherwise, and if it ends in none, its dots become `_` and the photo keeps its own
extension. -/
theorem parts_by_ending (hx : DotFirst valid) :
    (∀ stem ending, EndsIn valid (sanitized (pattern.render r)) stem ending →
      parts r pattern valid =
        if stem.all (· = '.') then ownParts r pattern else (stem, ending)) ∧
    ((∀ stem ending, ¬ EndsIn valid (sanitized (pattern.render r)) stem ending) →
      parts r pattern valid = ownParts r pattern) := by
  rw [parts_eq]
  constructor
  · intro stem ending h
    obtain ⟨rest, rfl, hr⟩ := h.exists_rest hx
    rw [h.1, Path.splitName_append stem hr]
    split
    · simp
    · simp [h.2]
  · intro hnone
    rw [if_neg]
    rintro ⟨_, hv⟩
    exact hnone _ _ ⟨(Path.splitName_append_eq _).symm, hv⟩

private theorem dotFirst_standard : DotFirst standardExtensions := by
  intro x hx
  refine ⟨x.tail, ?_⟩
  revert x
  decide

theorem parts_of_two_patterns :
    let r := Record.empty "a.ARW".toList
    let kept := Pattern.compile "IMG.2.JPG".toList
    let dotted := Pattern.compile "v1.2".toList
    DotFirst standardExtensions ∧
      EndsIn standardExtensions (sanitized (kept.render r)) "IMG.2".toList ".JPG".toList ∧
      parts r kept standardExtensions = ("IMG.2".toList, ".JPG".toList) ∧
      (∀ stem ending, ¬ EndsIn standardExtensions (sanitized (dotted.render r)) stem ending) ∧
      parts r dotted standardExtensions = ("v1_2".toList, ".ARW".toList) := by
  intro r kept dotted
  have hname : sanitized (dotted.render r) = "v1".toList ++ '.' :: "2".toList := by decide +kernel
  have hends : EndsIn standardExtensions (sanitized (kept.render r)) "IMG.2".toList ".JPG".toList :=
    ⟨by decide +kernel, by decide +kernel⟩
  have hnone : ∀ stem ending, ¬ EndsIn standardExtensions (sanitized (dotted.render r)) stem ending := by
    intro stem ending h
    obtain ⟨rest, rfl, hr⟩ := h.exists_rest dotFirst_standard
    have hcut := h.1
    rw [hname] at hcut
    obtain ⟨_, hrest⟩ := Text.append_cons_inj (by decide) hr hcut
    have hv := h.2
    rw [← hrest] at hv
    exact absurd hv (by decide +kernel)
  have hkept := (parts_by_ending r kept standardExtensions dotFirst_standard).1 _ _ hends
  have hown := (parts_by_ending r dotted standardExtensions dotFirst_standard).2 hnone
  refine ⟨dotFirst_standard, hends, ?_, hnone, ?_⟩
  · rw [hkept]
    decide
  · rw [hown]
    decide +kernel

/-- A valid extension with nothing before it is not kept: for a photo without a known lens this pattern
makes `_jpg` and leaves it its own extension. -/
theorem lone_ending_is_not_kept :
    let r := Record.empty "a.ARW".toList
    let pattern := Pattern.compile "$lm.jpg".toList
    DotFirst standardExtensions ∧ (∀ x ∈ standardExtensions, x.length ≠ 1 ∧ Text.lowered x = x) ∧
      EndsIn standardExtensions (sanitized (pattern.render r)) [] ".jpg".toList ∧
      parts r pattern standardExtensions = ("_jpg".toList, ".ARW".toList) :=
  ⟨dotFirst_standard, by decide +kernel, ⟨by decide +kernel, by decide +kernel⟩, by decide +kernel⟩

end PhotoNaming.FileName
