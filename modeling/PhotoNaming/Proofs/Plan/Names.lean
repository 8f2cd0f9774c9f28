import PhotoNaming.Plan.Basic
import PhotoNaming.Proofs.FileName.Shape
import PhotoNaming.Proofs.Path.Normal

/-! The names of planned files. A number, and a mark behind it, can be read off the name again, so two
files of one directory have one name only if they agree in all that the name is made of. -/
namespace PhotoNaming

/-- What may stand between a number and the extension: nothing, or a number in brackets. -/
def IsMark (t : Text) : Prop := t = [] ∨ ∃ i, t = '(' :: Text.zeroPadded 2 i ++ [')']

namespace IsMark

theorem nil : IsMark [] := .inl rfl

theorem of_mem {t : Text} (h : IsMark t) {c : Char} (hc : c ∈ t) : c = '(' ∨ c = ')' ∨ c.isDigit := by
  rcases h with rfl | ⟨i, rfl⟩
  · simp at hc
  · simp only [List.cons_append, List.mem_cons, List.mem_append, List.not_mem_nil, or_false] at hc
    rcases hc with rfl | hc | rfl
    · exact .inl rfl
    · exact .inr (.inr (Text.isDigit_of_mem_zeroPadded hc))
    · exact .inr (.inl rfl)

theorem head?_not_isDigit {t : Text} (h : IsMark t) : ∀ c ∈ t.head?, c.isDigit = false := by
  rcases h with rfl | ⟨i, rfl⟩
  · simp
  · intro c hc
    have hc : '(' = c := by simpa using hc
    rw [← hc]
    decide

end IsMark

namespace NamedRecord

open PhotoNaming.Path (IsName IsExtension slashed)

/-- What holds of a record named by patterns: its stem and extension can be told apart, and it has a
directory for each of `depth` levels. -/
structure Sound (depth : Nat) (n : NamedRecord) : Prop where
  extension : IsExtension n.extension
  no_slash : '/' ∉ n.stem ∧ '/' ∉ n.extension
  no_dot : n.extension = [] → '.' ∉ n.stem
  directories : ∃ names, names.length = depth ∧ (∀ m ∈ names, IsName m) ∧
    n.directories = FileName.nested [] names

theorem sound_ofRecord (pattern : Pattern) (levels : List Pattern) (valid : List Text) (r : Record) :
    (ofRecord pattern levels valid r).Sound levels.length := by
  have hnames : ∀ m ∈ levels.map fun p => FileName.level (p.render r), IsName m := by
    intro m hm
    obtain ⟨p, _, rfl⟩ := List.mem_map.mp hm
    exact FileName.isName_level _
  have hextension := FileName.isExtension_parts r pattern valid
  have hslash := FileName.slash_notMem_parts r pattern valid
  have hdot := FileName.dot_notMem_parts r pattern valid
  rw [ofRecord]
  generalize FileName.parts r pattern valid = parts at hextension hslash hdot ⊢
  exact ⟨hextension, hslash, hdot, _, List.length_map .., hnames, rfl⟩

/-- The file name with its number and a mark behind that. -/
def markedName (number : Nat) (mark : Text) (n : NamedRecord) : Text :=
  n.stem ++ '_' :: Text.ofNat number ++ mark ++ n.extension

theorem markedName_nil (number : Nat) (n : NamedRecord) :
    n.markedName number [] = n.numberedName number := by
  simp [markedName, numberedName]

/-- A number and its mark hold no other characters than digits and brackets. -/
private theorem notMem_number {mark : Text} (hm : IsMark mark) (number : Nat) {c : Char}
    (hc : c.isDigit = false) (ho : c ≠ '(') (hs : c ≠ ')') : c ∉ Text.ofNat number ++ mark := by
  intro h
  rcases List.mem_append.mp h with h | h
  · exact absurd (Text.isDigit_of_mem_ofNat h) (by simp [hc])
  · rcases hm.of_mem h with h | h | h
    · exact ho h
    · exact hs h
    · exact absurd h (by simp [hc])

variable {depth : Nat} {n : NamedRecord}

theorem Sound.isName_markedName (h : n.Sound depth) {mark : Text} (hm : IsMark mark) (number : Nat) :
    IsName (n.markedName number mark) := by
  have hu : '_' ∈ n.markedName number mark := by simp [markedName]
  have hs := notMem_number hm number (c := '/') (by decide) (by decide) (by decide)
  refine ⟨?_, ?_, ?_, ?_⟩
  · exact List.ne_nil_of_mem hu
  · intro he
    rw [he] at hu
    exact absurd hu (by decide)
  · intro he
    rw [he] at hu
    exact absurd hu (by decide)
  · intro hc
    rw [markedName, List.append_assoc, List.append_assoc, List.cons_append, List.mem_append,
      List.mem_cons, ← List.append_assoc, List.mem_append] at hc
    rcases hc with hc | hc | hc | hc
    · exact h.no_slash.1 hc
    · exact absurd hc (by decide)
    · exact hs hc
    · exact h.no_slash.2 hc

/-- The extension of a marked name is cut off behind the number and its mark. -/
theorem Sound.splitName_markedName (h : n.Sound depth) {mark : Text} (hm : IsMark mark) (number : Nat) :
    Path.splitName (n.markedName number mark) =
      (n.stem ++ '_' :: Text.ofNat number ++ mark, n.extension) := by
  have hd := notMem_number hm number (c := '.') (by decide) (by decide) (by decide)
  refine Path.splitName_append_extension h.extension ?_ (c := '_') (by simp) (by decide)
  intro he
  rw [List.append_assoc, List.cons_append, List.mem_append, List.mem_cons, not_or, not_or]
  exact ⟨h.no_dot he, by decide, hd⟩

/-- So it is in a path, whatever dots stand before the name. -/
theorem Sound.splitExtension_markedName (h : n.Sound depth) {mark : Text} (hm : IsMark mark)
    (number : Nat) {front : Text} (hf : front = [] ∨ front.getLast? = some '/') :
    Path.splitExtension (front ++ n.markedName number mark) =
      (front ++ (n.stem ++ '_' :: Text.ofNat number ++ mark), n.extension) := by
  rw [Path.splitExtension_append hf (h.isName_markedName hm number).no_slash,
    h.splitName_markedName hm]

/-- All that a marked name is made of can be read off it. -/
theorem Sound.markedName_inj {depth' : Nat} {n' : NamedRecord} (h : n.Sound depth)
    (h' : n'.Sound depth') {number number' : Nat} {mark mark' : Text} (hm : IsMark mark)
    (hm' : IsMark mark') (he : n.markedName number mark = n'.markedName number' mark') :
    n.stem = n'.stem ∧ number = number' ∧ mark = mark' ∧ n.extension = n'.extension := by
  have no_dot {d : Nat} {k : NamedRecord} (hk : k.Sound d) {t : Text} (ht : IsMark t) (i : Nat)
      (hx : k.extension = []) : '.' ∉ k.stem ++ '_' :: Text.ofNat i ++ t := by
    have hi := notMem_number ht i (c := '.') (by decide) (by decide) (by decide)
    rw [List.append_assoc, List.cons_append, List.mem_append, List.mem_cons, not_or, not_or]
    exact ⟨hk.no_dot hx, by decide, hi⟩
  obtain ⟨hs, hx⟩ := Path.append_extension_inj h.extension h'.extension (no_dot h hm number)
    (no_dot h' hm' number') he
  rw [List.append_assoc, List.cons_append, List.append_assoc, List.cons_append] at hs
  obtain ⟨hst, hn⟩ := Text.append_cons_inj
    (notMem_number hm number (by decide) (by decide) (by decide))
    (notMem_number hm' number' (by decide) (by decide) (by decide)) hs
  obtain ⟨hi, hmark⟩ := Text.digits_append_inj (fun _ hc => Text.isDigit_of_mem_ofNat hc)
    (fun _ hc => Text.isDigit_of_mem_ofNat hc) hm.head?_not_isDigit hm'.head?_not_isDigit hn
  exact ⟨hst, Text.ofNat_injective hi, hmark, hx⟩

/-- A target is written in full as the normal form of the directory for new files, the levels, and the
numbered name. -/
theorem Sound.target_eq (h : n.Sound depth) {names : List Text} (hn : ∀ m ∈ names, IsName m)
    (hd : n.directories = FileName.nested [] names) (directory : Text) (number : Nat) :
    n.target directory number = Path.root directory ++
      slashed (Path.normalParts directory ++ names) ++ n.numberedName number := by
  have hl : n.lastDirectory = slashed names := by
    rw [lastDirectory, hd, FileName.getLastD_nested, List.nil_append]
  rw [target, hl]
  exact Path.normal_join directory hn (markedName_nil number n ▸ h.isName_markedName .nil number)

end NamedRecord

end PhotoNaming
