import PhotoNaming.Tag.Description
import PhotoNaming.Proofs.Binary64.Rounding
import PhotoNaming.Proofs.Outcome

/-! Reports of single tags. Whatever a tag holds, it is reported in the form of its property or as it is
printed, but for f-numbers and focal lengths that are integers out of range. -/
namespace PhotoNaming

variable {s num den : TagScalar} {item : TagItem} {tag : Tag} {name : Text} {limit : TagLimit}

/-- An integer that no binary64 number is near. -/
def TagScalar.IsTooLarge : TagScalar → Prop
  | .number (.integer n) => 2 ^ 1024 ≤ n.natAbs + 2 ^ 970
  | _ => False

/-- An item that is too large, or a ratio of which one part is. The second part does not count where the
first one is no number. -/
def TagItem.IsTooLarge : TagItem → Prop
  | .scalar s => s.IsTooLarge
  | .ratio num den _ => num.IsTooLarge ∨ (∃ x, num.toReal = .ok x) ∧ den.IsTooLarge

/-- A tag that is reported as a number, the first item of which is too large. -/
def Tag.IsTooLarge (name : Text) (tag : Tag) : Prop :=
  (name = "FNumber".toList ∨ name = "FocalLength".toList) ∧
    ∃ item rest, tag.values = some (.items (item :: rest)) ∧ item.IsTooLarge

theorem TagLimit.check_eq_limit_iff {x : Option Binary64} :
    TagLimit.check x = .error (.inr limit) ↔ x = none := by
  cases x with
  | some x => exact ⟨nofun, nofun⟩
  | none => exact ⟨fun _ => rfl, fun _ => rfl⟩

theorem TagScalar.toReal_eq_limit_iff : s.toReal = .error (.inr limit) ↔ s.IsTooLarge := by
  cases s with
  | number x =>
    cases x with
    | integer n =>
      rw [toReal, IsTooLarge, TagLimit.check_eq_limit_iff]
      exact Binary64.ofInt?_eq_none_iff n
    | binary x => simp [toReal, IsTooLarge]
  | text t =>
    rw [toReal]
    split <;> simp [IsTooLarge]
  | nothing | list | listOf => simp [toReal, IsTooLarge]

theorem TagItem.toReal_eq_limit_iff : item.toReal = .error (.inr limit) ↔ item.IsTooLarge := by
  cases item with
  | scalar s => exact TagScalar.toReal_eq_limit_iff
  | ratio num den shown =>
    rw [toReal, IsTooLarge, bind_eq_error_iff, TagScalar.toReal_eq_limit_iff]
    refine or_congr_right ?_
    constructor
    · rintro ⟨n, hn, h⟩
      rcases bind_eq_error_iff.mp h with h | ⟨d, _, h⟩
      · exact ⟨⟨n, hn⟩, TagScalar.toReal_eq_limit_iff.mp h⟩
      · split at h <;> cases h
    · rintro ⟨⟨n, hn⟩, h⟩
      exact ⟨n, hn, bind_eq_error_iff.mpr (.inl (TagScalar.toReal_eq_limit_iff.mpr h))⟩

namespace Tag

theorem firstItem_eq_ok_iff :
    tag.firstItem = .ok item ↔
      (∃ rest, tag.values = some (.items (item :: rest))) ∨
        ∃ c t, tag.values = some (.text (c :: t)) ∧ item = .scalar (.text [c]) := by
  unfold firstItem
  split <;> simp_all [eq_comm]

theorem firstItem_ne_limit (tag : Tag) : tag.firstItem ≠ .error (.inr limit) := by
  unfold firstItem
  split <;> exact nofun

/-- Only the first item decides whether a tag is out of range. -/
theorem toReal_firstItem_eq_limit_iff (limit : TagLimit) :
    tag.firstItem >>= TagItem.toReal = .error (.inr limit) ↔
      ∃ item rest, tag.values = some (.items (item :: rest)) ∧ item.IsTooLarge := by
  rw [bind_eq_error_iff, or_iff_right (firstItem_ne_limit tag)]
  constructor
  · rintro ⟨item, hi, h⟩
    rw [TagItem.toReal_eq_limit_iff] at h
    rcases firstItem_eq_ok_iff.mp hi with ⟨rest, hv⟩ | ⟨c, t, _, rfl⟩
    · exact ⟨item, rest, hv, h⟩
    · exact h.elim
  · rintro ⟨item, rest, hv, h⟩
    exact ⟨item, firstItem_eq_ok_iff.mpr (.inl ⟨rest, hv⟩), TagItem.toReal_eq_limit_iff.mpr h⟩

theorem failsOnly_allItems (tag : Tag) : FailsOnly (· ≠ .inr limit) tag.allItems := by
  unfold allItems
  split
  · exact .error nofun
  · exact .ok _
  · exact .ok _
  · exact .error nofun
  · exact .error nofun

theorem failsOnly_shown (step : Except Text Text) : FailsOnly (· ≠ .inr limit) (shown step) :=
  FailsOnly.mapError fun _ _ => nofun

theorem failsOnly_colourText (item : TagItem) : FailsOnly (· ≠ .inr limit) (colourText item) := by
  unfold colourText
  split
  · exact .error nofun
  · exact .error nofun
  · exact (failsOnly_shown _).bind fun _ => .ok _
  · exact failsOnly_shown _
  · exact failsOnly_shown _

/-- Colours never end the reporting. -/
theorem failsOnly_colourNames (tag : Tag) : FailsOnly (· ≠ .inr limit) tag.colourNames :=
  (failsOnly_allItems tag).bind fun _ => (FailsOnly.mapM failsOnly_colourText _).bind fun _ => .ok _

theorem number_eq_limit_iff (write : Binary64 → Text) :
    (do return write (← (← tag.firstItem).toReal) : TagReport Text) = .error (.inr limit) ↔
      ∃ item rest, tag.values = some (.items (item :: rest)) ∧ item.IsTooLarge := by
  rw [← bind_assoc, bind_eq_error_iff, ← toReal_firstItem_eq_limit_iff limit]
  exact or_iff_left (fun ⟨_, _, h⟩ => nomatch h)

theorem special?_eq_limit_iff (limit : TagLimit) :
    tag.special? name = some (.error (.inr limit)) ↔ tag.IsTooLarge name := by
  unfold special? IsTooLarge
  by_cases hexposure : name = "ExposureTime".toList
  · rw [if_pos hexposure, hexposure]
    simp
  · rw [if_neg hexposure]
    by_cases hnumber : name = "FNumber".toList
    · rw [if_pos hnumber, Option.some_inj, number_eq_limit_iff]
      simp [hnumber]
    · rw [if_neg hnumber]
      by_cases hlength : name = "FocalLength".toList
      · rw [if_pos hlength, Option.some_inj, number_eq_limit_iff]
        simp [hlength]
      · rw [if_neg hlength]
        refine ⟨fun h => ?_, fun h => absurd h.1 (not_or.mpr ⟨hnumber, hlength⟩)⟩
        split at h
        · exact absurd rfl (failsOnly_colourNames tag _ (Option.some_inj.mp h))
        · cases h

/-- A tag is reported in any case unless it is out of range. -/
theorem exists_report_iff :
    (∃ text, (tag.report name).result = .ok text) ↔ ¬ tag.IsTooLarge name := by
  rw [← special?_eq_limit_iff .tooLarge, report]
  split
  · rename_i h
    simp [h, Logged.pure]
  · rename_i limit h
    simp [h, Logged.fail]
  · rename_i h
    simp [h]
  · rename_i h
    simp [h, Logged.pure]

end Tag

end PhotoNaming
