import PhotoNaming.Pattern.Compiled
import PhotoNaming.Proofs.Pattern.Normal

/-! Patterns one behind the other. Where the first leaves no field open, its segments and those of the second
are the segments of both together, but for two literals that meet, and the filled-in texts are joined. -/
namespace PhotoNaming

namespace Segment

/-- Segments one list behind the other. Where two literals meet they become one. -/
def fused (front back : List Segment) : List Segment :=
  match front.getLast?, back with
  | some (literal t), literal u :: rest => front.dropLast ++ literal (t ++ u) :: rest
  | _, _ => front ++ back

variable {s : Segment} {front back : List Segment}

theorem fused_eq_append (h : (∀ t, front.getLast? ≠ some (literal t)) ∨ ∀ t, back.head? ≠ some (literal t)) :
    fused front back = front ++ back := by
  unfold fused
  split
  · rename_i t u rest hl
    rcases h with h | h
    · exact absurd hl (h t)
    · exact absurd rfl (h u)
  · rfl

/-- Two literals that meet in front of other segments. -/
theorem literalOf_append (t u : Text) (back : List Segment)
    (h : ∀ v, back.head? ≠ some (literal v)) :
    literalOf (t ++ u) ++ back = fused (literalOf t) (literalOf u ++ back) := by
  by_cases ht : t = []
  · subst ht
    rw [fused_eq_append (.inl (by simp [literalOf]))]
    rfl
  · by_cases hu : u = []
    · subst hu
      rw [fused_eq_append (.inr (by simpa [literalOf] using h)), List.append_nil]
      rfl
    · simp [literalOf, ht, hu, fused]

/-- What comes before the last segment does not matter. -/
theorem append_fused (before : List Segment) (h : front ≠ []) :
    before ++ fused front back = fused (before ++ front) back := by
  unfold fused
  rw [List.getLast?_append_of_ne_nil before h]
  split
  · rw [List.dropLast_append_of_ne_nil h, List.append_assoc]
  · rw [List.append_assoc]

theorem flatMap_render_fused (r : Record) (front back : List Segment) :
    (fused front back).flatMap (render r) = front.flatMap (render r) ++ back.flatMap (render r) := by
  unfold fused
  split
  · rename_i t u rest hl
    obtain ⟨start, rfl⟩ := List.getLast?_eq_some_iff.mp hl
    simp [render]
  · exact List.flatMap_append

end Segment

namespace PatternScan

/-- A reading that what comes behind it leaves as it is: no field is open, and no bracket opens behind a whole
date code. -/
def SettledBefore (behind : Text) : PatternScan → Prop
  | literal _ => True
  | dateCode _ => behind.head? ≠ some '['
  | _ => False

variable {date : Text} {scan : PatternScan} {p q : Text}

theorem dropped_of_settledBefore (h : scan.SettledBefore q) : scan.dropped = [] := by
  cases scan with
  | datePattern read pattern => exact h.elim
  | literal t | code read | dateCode read => rfl

/-- A literal that is begun already goes before the segments of the rest. -/
theorem segments_literal_append (t u q : Text) :
    segments date (literal (t ++ u)) q =
      Segment.fused (Segment.literalOf t) (segments date (literal u) q) := by
  induction q generalizing u with
  | nil => simpa [segments, finish] using Segment.literalOf_append t u [] (by simp)
  | cons c q ih =>
    by_cases hc : c = '$'
    · have hb : ∀ v, (segments date (code []) q).head? ≠ some (.literal v) := by
        intro v hv
        have hs : (code []).Sound date := Nat.zero_le 1
        exact (Yields.segments hs q).begins _ hv v rfl
      rw [hc, segments_sigil, segments_sigil]
      exact Segment.literalOf_append t u _ hb
    · have hs (v : Text) : segments date (literal v) (c :: q) = segments date (literal (v ++ [c])) q := by
        rw [segments, step, literalStep, if_neg hc, List.nil_append]
      rw [hs, hs, List.append_assoc]
      exact ih (u ++ [c])

/-- A `$` is followed by a field, unless a bracket stays open. -/
theorem segments_code_ne_nil {read : Text} (h : (reached date (code read) p).dropped = []) :
    segments date (code read) p ≠ [] := by
  intro hn
  have hw := patternOf_segments date (code read) p
  rw [hn, h] at hw
  cases hw

/-- A literal is complete only where a field opens. -/
theorem step_of_getLast? {c : Char} {t : Text}
    (h : (step date scan c).1.getLast? = some (.literal t)) : (step date scan c).2 = code [] := by
  cases scan with
  | literal u =>
    rw [step, literalStep] at h ⊢
    split at h
    · rename_i hc
      rw [if_pos hc]
    · cases h
  | code read =>
    cases read with
    | nil => cases h
    | cons a read =>
      rw [step] at h
      split at h <;> simp at h
  | dateCode read =>
    rw [step] at h
    split at h
    · cases h
    · simp [literalStep_nil] at h
  | datePattern read pattern =>
    rw [step] at h
    split at h <;> simp at h

/-- What is read up to a settled place does not depend on what comes behind it. -/
theorem segments_append (h : (reached date scan p).SettledBefore q) :
    segments date scan (p ++ q) = Segment.fused (segments date scan p) (segments date start q) := by
  induction p generalizing scan with
  | nil =>
    cases scan with
    | literal t =>
      have ht : segments date (literal (t ++ [])) q =
          Segment.fused (Segment.literalOf t) (segments date start q) := segments_literal_append t [] q
      rwa [List.append_nil] at ht
    | dateCode read =>
      have hf : segments date (dateCode read) [] = [.field read] := rfl
      rw [List.nil_append, segments_dateCode h, hf, Segment.fused_eq_append (.inl (by simp))]
      rfl
    | code read | datePattern read pattern => exact h.elim
  | cons c p ih =>
    rw [List.cons_append, segments, segments, ih h]
    by_cases hn : segments date (step date scan c).2 p = []
    · have hl : ∀ t, (step date scan c).1.getLast? ≠ some (.literal t) := by
        intro t ht
        have hc := step_of_getLast? ht
        rw [hc] at hn
        refine segments_code_ne_nil ?_ hn
        rw [← hc]
        exact dropped_of_settledBefore h
      rw [hn, List.append_nil, Segment.fused_eq_append (.inl (by simp)), List.nil_append,
        Segment.fused_eq_append (.inl hl)]
    · exact Segment.append_fused _ hn

end PatternScan

namespace Pattern

open PatternScan (start)

/-- If the reading of `p` ends outside of fields, and not right behind a date code that `q` gives a bracket, then
the segments of `p` and `q` together are those of `p` and those of `q` with two literals that meet made one,
whichever the date code is. Filled in for a record, the two patterns give their texts one behind the other. -/
theorem patterns_compose (p q : Text) :
    (∀ date, (start.reached date p).SettledBefore q →
      Segment.ofPattern date (p ++ q) = Segment.fused (Segment.ofPattern date p) (Segment.ofPattern date q)) ∧
    ((start.reached dateCode p).SettledBefore q → ∀ r : Record,
      (compile (p ++ q)).render r = (compile p).render r ++ (compile q).render r) := by
  refine ⟨fun date => PatternScan.segments_append, fun h r => ?_⟩
  have hs : Segment.ofPattern dateCode (p ++ q) =
      Segment.fused (Segment.ofPattern dateCode p) (Segment.ofPattern dateCode q) :=
    PatternScan.segments_append h
  rw [render, compile, hs, Segment.flatMap_render_fused]
  rfl

/-- A maker's name in front of a year, with a literal that goes on over the seam. -/
theorem maker_and_year_compose :
    let p := "$mk_".toList
    let q := "-$dt[yyyy]".toList
    let r : Record := ⟨['a'], [⟨"mk", "Make", "Sony", .text "Sony", "Sony"⟩,
      ⟨"dt", "Date/Time", "2021:10:26 00:00:00",
        .timestamp ⟨2021, 10, 26, 0, 0, 0, 0, by decide, by decide, by decide⟩, "10/26/2021 00:00"⟩]⟩
    (start.reached dateCode p).SettledBefore q ∧
      Segment.ofPattern dateCode (p ++ q) =
        [.field "mk", .literal "_-", .date "dt" "yyyy"] ∧
      (compile (p ++ q)).render r = "Sony_-2021".toList := by
  intro p q r
  have hreached : start.reached dateCode p = .literal ['_'] := by decide
  have hs : (start.reached dateCode p).SettledBefore q := by
    rw [hreached]
    trivial
  obtain ⟨hsegments, hrender⟩ := patterns_compose p q
  refine ⟨hs, ?_, ?_⟩
  · rw [hsegments dateCode hs]
    decide
  · rw [hrender hs r]
    decide +kernel

/-- A bracket behind a date code is part of the date field. -/
example : Segment.ofPattern dateCode ("$dt".toList ++ "[y]".toList) = [.date "dt" "y"] ∧
    Segment.ofPattern dateCode "[y]".toList = [.literal "[y]"] := by
  decide

end Pattern

end PhotoNaming
