import PhotoNaming.Text.Basic

/-! Texts and lists of texts in the order of code points. Sorting keeps what there is, leaves out nothing more
when some are left out first, and has each text before those it is a beginning of. -/
namespace PhotoNaming

/-- What is longer comes later. -/
theorem lt_append {α : Type} [LT α] (a : List α) {b : List α} (h : b ≠ []) : a < a ++ b := by
  have hb : [] < b := by
    cases b with
    | nil => exact absurd rfl h
    | cons c b => exact List.nil_lt_cons c b
  simpa using List.append_left_lt hb

namespace Text

variable {texts : List Text} {t : Text}

theorem sorted_perm (texts : List Text) : (sorted texts).Perm texts := List.mergeSort_perm _ _

@[simp] theorem mem_sorted : t ∈ sorted texts ↔ t ∈ texts := (sorted_perm texts).mem_iff

theorem pairwise_mergeSort_by {α : Type} (key : α → Text) (as : List α) :
    (as.mergeSort fun a b => decide (¬ key b < key a)).Pairwise fun a b => ¬ key b < key a := by
  refine (List.pairwise_mergeSort (fun a b c => ?_) (fun a b => ?_) as).imp (by simp)
  · simp only [decide_eq_true_eq]
    grind
  · simp only [Bool.or_eq_true, decide_eq_true_eq]
    grind

/-- Keys that are all different come in ascending order. -/
theorem pairwise_lt_mergeSort_by {α : Type} (key : α → Text) {as : List α} (h : (as.map key).Nodup) :
    (as.mergeSort fun a b => decide (¬ key b < key a)).Pairwise fun a b => key a < key b := by
  have hne : (as.mergeSort fun a b => decide (¬ key b < key a)).Pairwise fun a b => key a ≠ key b :=
    List.pairwise_map.mp (((List.mergeSort_perm as _).map key).nodup_iff.mpr h)
  exact ((pairwise_mergeSort_by key as).and hne).imp fun hle => by grind

theorem pairwise_sorted (texts : List Text) : (sorted texts).Pairwise fun a b => ¬ b < a :=
  pairwise_mergeSort_by id texts

/-- There is one order of different texts. -/
theorem pairwise_lt_sorted (h : texts.Nodup) : (sorted texts).Pairwise (· < ·) :=
  pairwise_lt_mergeSort_by id (by rwa [List.map_id])

theorem filter_sorted (p : Text → Bool) (texts : List Text) :
    (sorted texts).filter p = sorted (texts.filter p) := by
  refine List.Perm.eq_of_pairwise ?_ ((pairwise_sorted texts).filter p) (pairwise_sorted _) ?_
  · intro a b _ _ hab hba
    grind
  · exact ((sorted_perm texts).filter p).trans (sorted_perm _).symm

end Text

end PhotoNaming
