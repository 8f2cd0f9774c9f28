import PhotoNaming.Proofs.Record.Single
import PhotoNaming.Proofs.Text.Separators

/-! Colour filters from the tag to the record. The names of colours that are joined for a report are read
back one by one as letters, and letters are read as themselves. -/
namespace PhotoNaming

namespace Reading

/-- Names of colours are read each on its own, whatever stands beside it. -/
theorem colourFilter_joinWith {names : List Text} (h : ∀ name ∈ names, ∀ c ∈ name, c.toNat < 0x80) :
    colourFilter (Text.joinWith [','] names) = names.flatMap colourFilter := by
  have hlower : Text.lowered (Text.joinWith [','] names) =
      Text.joinWith [','] (names.map Text.lowered) := by
    rw [Text.lowered_of_ascii (Text.forall_mem_joinWith (by decide) h),
      List.map_congr_left fun name hn => Text.lowered_of_ascii (h name hn)]
    exact Text.apply_joinWith rfl (fun a b => List.map_append) names
  have hword {old new : Text} (hs : ',' ∉ old) (hne : old ≠ []) (parts : List Text) :
      Text.replaced old new (Text.joinWith [','] parts) =
        Text.joinWith [','] (parts.map (Text.replaced old new)) :=
    Text.apply_joinWith rfl (Text.replaced_append_cons hs hne) parts
  rw [colourFilter_eq, hlower, hword (by decide) (by decide), hword (by decide) (by decide),
    hword (by decide) (by decide), Text.filterMap_joinWith (by decide)]
  simp only [List.flatMap_map, ← colourFilter_eq]

theorem mem_of_mem_colourFilter {t : Text} {c : Char} (h : c ∈ colourFilter t) : c ∈ ['R', 'G', 'B'] := by
  rw [colourFilter_eq, List.mem_filterMap] at h
  obtain ⟨small, _, h⟩ := h
  split at h
  · rename_i hs
    have hcapital : ∀ small ∈ ['r', 'g', 'b'], small.toUpper ∈ ['R', 'G', 'B'] := by
      simp only [List.forall_mem_cons, List.not_mem_nil, false_implies, implies_true]
      decide
    cases h
    exact hcapital small hs
  · cases h

/-- Letters of colours are read as themselves: none of the three words can stand among them, for want of
an `e`. -/
theorem colourFilter_of_letters {t : Text} (h : ∀ c ∈ t, c ∈ ['R', 'G', 'B']) : colourFilter t = t := by
  have hletter : ∀ c ∈ ['R', 'G', 'B'], c.toNat < 0x80 ∧ c.toLower ≠ 'e' ∧
      (if c.toLower ∈ ['r', 'g', 'b'] then some c.toLower.toUpper else none) = some c := by
    simp only [List.forall_mem_cons, List.not_mem_nil, false_implies, implies_true]
    decide
  have he : 'e' ∉ t.map Char.toLower := by
    intro hm
    obtain ⟨c, hc, he⟩ := List.mem_map.mp hm
    exact (hletter c (h c hc)).2.1 he
  rw [colourFilter_eq, Text.lowered_of_ascii fun c hc => (hletter c (h c hc)).1,
    Text.replaced_of_notMem (by decide) he, Text.replaced_of_notMem (by decide) he,
    Text.replaced_of_notMem (by decide) he, List.filterMap_map]
  exact (List.filterMap_congr fun c hc => (hletter c (h c hc)).2.2).trans List.filterMap_some

/-- Reading a colour filter again changes nothing. -/
theorem colourFilter_colourFilter (t : Text) : colourFilter (colourFilter t) = colourFilter t :=
  colourFilter_of_letters fun _ hc => mem_of_mem_colourFilter hc

end Reading

namespace Tag

/-- The letter of one of the first three colours. -/
def colourLetter : Fin 3 → Char
  | 0 => 'R'
  | 1 => 'G'
  | 2 => 'B'

/-- A colour is reported by its name, which is read as its letter. -/
theorem exists_colourText (k : Fin 3) :
    ∃ name, colourText (.scalar (.number (.integer k.val))) = .ok name ∧
      (∀ c ∈ name, c.toNat < 0x80) ∧ Reading.colourFilter name = [colourLetter k] := by
  match k with
  | 0 => exact ⟨"Red".toList, rfl, by simp, by decide⟩
  | 1 => exact ⟨"Green".toList, rfl, by simp, by decide⟩
  | 2 => exact ⟨"Blue".toList, rfl, by simp, by decide⟩

theorem exists_mapM_colourText (colours : List (Fin 3)) :
    ∃ names, (colours.map fun k => .scalar (.number (.integer k.val))).mapM colourText = .ok names ∧
      (∀ name ∈ names, ∀ c ∈ name, c.toNat < 0x80) ∧
      names.flatMap Reading.colourFilter = colours.map colourLetter := by
  induction colours with
  | nil => exact ⟨[], rfl, by simp, rfl⟩
  | cons k colours ih =>
    obtain ⟨name, hname, hascii, hread⟩ := exists_colourText k
    obtain ⟨names, hnames, hasciis, hreads⟩ := ih
    refine ⟨name :: names, ?_, List.forall_mem_cons.mpr ⟨hascii, hasciis⟩, ?_⟩
    · rw [List.map_cons, List.mapM_cons, hname, ok_bind, hnames]
      rfl
    · rw [List.flatMap_cons, hread, hreads]
      rfl

/-- The items of a filter that are colours. More than four begin with the two lengths of the grid. -/
def colourItems (items : List (Fin 3)) : List (Fin 3) := if 4 < items.length then items.drop 4 else items

/-- A tag of colours by number. -/
def ofColours (printed : Text) (items : List (Fin 3)) : Tag where
  printed := printed
  values := some (.items (items.map fun k => .scalar (.number (.integer k.val))))

theorem exists_report_ofColours (printed : Text) (items : List (Fin 3)) :
    ∃ text, ((ofColours printed items).report "CFAPattern".toList).result = .ok text ∧
      Reading.colourFilter text = (colourItems items).map colourLetter := by
  obtain ⟨names, hnames, hascii, hread⟩ := exists_mapM_colourText (colourItems items)
  have htext : (ofColours printed items).colourNames = .ok (Text.joinWith [','] names) := by
    have hitems : (if 4 < (items.map fun k => TagItem.scalar (.number (.integer k.val))).length then
          (items.map fun k => TagItem.scalar (.number (.integer k.val))).drop 4
        else items.map fun k => TagItem.scalar (.number (.integer k.val))) =
          (colourItems items).map fun k => .scalar (.number (.integer k.val)) := by
      rw [colourItems, List.length_map]
      split
      · exact List.map_drop.symm
      · rfl
    rw [colourNames, ofColours, allItems, ok_bind, hitems, hnames]
    rfl
  refine ⟨Text.joinWith [','] names, ?_, ?_⟩
  · have hspecial : (ofColours printed items).special? "CFAPattern".toList =
        some (ofColours printed items).colourNames := rfl
    rw [report, hspecial, htext]
    rfl
  · rw [Reading.colourFilter_joinWith hascii, hread]

end Tag

namespace Record

/-- What tags report of a colour filter is what the catalog reads: a photo with a filter of red, green and blue
by number has their letters, those of the items behind the lengths of the grid. Whatever text is read as a
filter, it comes to such letters, which are read as themselves. -/
theorem colour_filters_agree :
    (∀ (items : List (Fin 3)) (group printed source : Text) (facts : Facts), ' ' ∉ group →
      ¬ Text.occurs "thumbnail" (Text.lowered group) →
        ∃ r p, MadeOf [(group ++ " CFAPattern".toList, Tag.ofColours printed items)] source facts r ∧
          r.property? "cf" = some p ∧
          p.value = .text ((Tag.colourItems items).map Tag.colourLetter) ∧
          p.fileText = (Tag.colourItems items).map Tag.colourLetter) ∧
      ∀ t, (∀ c ∈ Reading.colourFilter t, c ∈ ['R', 'G', 'B']) ∧
        Reading.colourFilter (Reading.colourFilter t) = Reading.colourFilter t := by
  constructor
  · intro items group printed source facts hspace hgroup
    obtain ⟨text, hreport, hread⟩ := Tag.exists_report_ofColours printed items
    have hd : Catalog.standard.byName? "CFAPattern".toList =
      some ⟨"cf", "CFA Pattern", .colourFilter, ["CFAPattern"]⟩ := by decide
    obtain ⟨r, hr, hp⟩ := exists_madeOf_single (Text.cutAt?_append_cons hspace "CFAPattern".toList) hgroup
      hreport hd (Property.ofReport_eq_ok_iff.mpr ⟨_, _, rfl, rfl, rfl⟩) source facts
    exact ⟨r, _, hr, hp, congrArg Value.text hread, hread⟩
  · exact fun t => ⟨fun _ hc => Reading.mem_of_mem_colourFilter hc, Reading.colourFilter_colourFilter t⟩

/-- A filter with the lengths of its grid in front. -/
theorem colours_of_grid :
    ∃ r p, MadeOf [("EXIF CFAPattern".toList, Tag.ofColours "[2, 0, 2, 0, 0, 1, 1, 2]" [2, 0, 2, 0, 0, 1, 1, 2])]
        "DSC0001.ARW" ⟨⟨2020, 1, 2, 3, 4, 5, 0, by decide, by decide, by decide⟩, "ARW", "DSC0001", 24000000⟩ r ∧
      r.property? "cf" = some p ∧ p.value = .text "RGGB" ∧ p.fileText = "RGGB".toList :=
  colour_filters_agree.1 [2, 0, 2, 0, 0, 1, 1, 2] "EXIF" _ _ _ (by decide) (by decide +kernel)

end Record

end PhotoNaming
