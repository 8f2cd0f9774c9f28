import PhotoNaming.Pattern.Basic
import Mathlib.Data.List.Chain

/-! Patterns and their segments. A pattern can be put together again from its segments, unless it ends
within brackets, and the lists of segments that patterns have are exactly those in normal form. -/
namespace PhotoNaming

namespace Segment

/-- The pattern that segments are written as, one behind the other. -/
def patternOf (segments : List Segment) : Text := segments.flatMap written

@[simp] theorem patternOf_nil : patternOf [] = [] := rfl

@[simp] theorem patternOf_cons (s : Segment) (segments : List Segment) :
    patternOf (s :: segments) = s.written ++ patternOf segments := rfl

@[simp] theorem patternOf_append (front back : List Segment) :
    patternOf (front ++ back) = patternOf front ++ patternOf back := by
  simp [patternOf]

@[simp] theorem patternOf_literalOf (t : Text) : patternOf (literalOf t) = t := by
  rw [literalOf]
  split
  · simp [*]
  · simp [written]

/-- What holds of a segment by itself: literals are not empty and open no field, codes are not too
long, and only the date carries a pattern, which does not close its own bracket. -/
def Sound (date : Text) : Segment → Prop
  | literal t => t ≠ [] ∧ '$' ∉ t
  | field code => code.length ≤ 2
  | .date code pattern => code = date ∧ ']' ∉ pattern

/-- What a segment asks of the one behind it: a literal does not go on in another one, a field with a
segment behind it has a whole code, and no bracket stands behind the code of the date. -/
def Precedes (date : Text) : Segment → Segment → Prop
  | literal _, next => ∀ t, next ≠ literal t
  | field code, next =>
    code.length = 2 ∧ ∀ t, next = literal t → code = date → t.head? ≠ some '['
  | .date _ _, _ => True

/-- The normal form of a list of segments. -/
structure IsNormal (date : Text) (segments : List Segment) : Prop where
  sound : ∀ s ∈ segments, s.Sound date
  chain : segments.IsChain (Precedes date)

namespace IsNormal

variable {date : Text} {s : Segment} {segments : List Segment}

theorem nil : IsNormal date [] := ⟨by simp, .nil⟩

theorem cons (hs : s.Sound date) (hn : ∀ next ∈ segments.head?, s.Precedes date next)
    (h : IsNormal date segments) : IsNormal date (s :: segments) :=
  ⟨List.forall_mem_cons.mpr ⟨hs, h.sound⟩, List.isChain_cons.mpr ⟨hn, h.chain⟩⟩

theorem singleton (hs : s.Sound date) : IsNormal date [s] := nil.cons hs (by simp)

theorem head (h : IsNormal date (s :: segments)) : s.Sound date := h.sound s (by simp)

theorem tail (h : IsNormal date (s :: segments)) : IsNormal date segments :=
  ⟨fun q hq => h.sound q (by simp [hq]), h.chain.tail⟩

theorem precedes (h : IsNormal date (s :: segments)) : ∀ next ∈ segments.head?, s.Precedes date next :=
  (List.isChain_cons.mp h.chain).1

end IsNormal

end Segment

namespace PatternScan

/-- How far the reading of a pattern is behind `t`. -/
def reached (date : Text) (scan : PatternScan) (t : Text) : PatternScan :=
  t.foldl (fun scan c => (step date scan c).2) scan

/-- What has been read and is not yet part of a segment. -/
def held : PatternScan → Text
  | literal t => t
  | code read => '$' :: read
  | dateCode read => '$' :: read
  | datePattern read pattern => '$' :: read ++ '[' :: pattern

/-- What the end of the pattern drops of that: a bracket that is still open, with its date code. -/
def dropped : PatternScan → Text
  | datePattern read pattern => '$' :: read ++ '[' :: pattern
  | _ => []

/-- A step loses no character. -/
theorem patternOf_step (date : Text) (scan : PatternScan) (c : Char) :
    Segment.patternOf (step date scan c).1 ++ held (step date scan c).2 = held scan ++ [c] := by
  have outside (t : Text) :
      Segment.patternOf (literalStep t c).1 ++ held (literalStep t c).2 = t ++ [c] := by
    rw [literalStep]
    split
    · simp [held, *]
    · simp [held]
  cases scan with
  | literal t => exact outside t
  | code read =>
    cases read with
    | nil => rfl
    | cons a read =>
      rw [step]
      split
      · simp [held]
      · simp [held, start, Segment.written]
  | dateCode read =>
    rw [step]
    split
    · simp [held, *]
    · simpa [held, Segment.written] using outside []
  | datePattern read pattern =>
    rw [step]
    split
    · simp [held, start, Segment.written, *]
    · simp [held]

theorem patternOf_finish (scan : PatternScan) :
    Segment.patternOf (finish scan) ++ dropped scan = held scan := by
  cases scan <;> simp [finish, dropped, held, Segment.written]

/-- The segments of a text, with what its end drops, are all that has been read. -/
theorem patternOf_segments (date : Text) (scan : PatternScan) (t : Text) :
    Segment.patternOf (segments date scan t) ++ dropped (reached date scan t) = held scan ++ t := by
  induction t generalizing scan with
  | nil => simpa [segments, reached] using patternOf_finish scan
  | cons c t ih =>
    have hr : reached date scan (c :: t) = reached date (step date scan c).2 t := rfl
    rw [segments, hr, Segment.patternOf_append, List.append_assoc, ih, ← List.append_assoc,
      patternOf_step, List.append_assoc, List.singleton_append]

/-- What holds of a reading at any time. -/
def Sound (date : Text) : PatternScan → Prop
  | literal t => '$' ∉ t
  | code read => read.length ≤ 1
  | dateCode read => read = date ∧ read.length = 2
  | datePattern read pattern => read = date ∧ ']' ∉ pattern

/-- The first segment that a reading comes to: behind a literal that is not empty its continuation, and
no literal within a field. -/
def Begins : PatternScan → Segment → Prop
  | literal t, .literal u => t <+: u
  | literal t, _ => t = []
  | _, next => ∀ t, next ≠ .literal t

variable {date : Text} {scan : PatternScan}

theorem sound_literalStep {t : Text} (h : '$' ∉ t) (c : Char) :
    (literalStep t c).2.Sound date := by
  rw [literalStep]
  split
  · exact Nat.zero_le 1
  · rename_i hc
    simpa [Sound, h] using Ne.symm hc

theorem Sound.step (h : scan.Sound date) (c : Char) : (step date scan c).2.Sound date := by
  cases scan with
  | literal t => exact sound_literalStep h c
  | code read =>
    cases read with
    | nil => exact Nat.le_refl 1
    | cons a read =>
      have hr : read = [] := by simpa [Sound] using h
      subst hr
      rw [PatternScan.step]
      split
      · exact ⟨‹_›, rfl⟩
      · exact List.not_mem_nil
  | dateCode read =>
    rw [PatternScan.step]
    split
    · exact ⟨h.1, List.not_mem_nil⟩
    · exact sound_literalStep List.not_mem_nil c
  | datePattern read pattern =>
    rw [PatternScan.step]
    split
    · exact List.not_mem_nil
    · rename_i hc
      exact ⟨h.1, by simpa [h.2] using Ne.symm hc⟩

theorem Sound.reached (h : scan.Sound date) (t : Text) : (scan.reached date t).Sound date := by
  induction t generalizing scan with
  | nil => exact h
  | cons c t ih => exact ih (h.step c)

theorem literalStep_nil (c : Char) : (literalStep [] c).1 = [] := by
  rw [literalStep]
  split
  · rfl
  · rfl

/-- The segments that a reading may still come to. -/
structure Yields (date : Text) (scan : PatternScan) (found : List Segment) : Prop where
  normal : Segment.IsNormal date found
  begins : ∀ s ∈ found.head?, scan.Begins s

namespace Yields

variable {found : List Segment}

theorem nil (scan : PatternScan) : Yields date scan [] := ⟨.nil, by simp⟩

theorem literalOf {t : Text} (ht : '$' ∉ t) (h : Yields date (code []) found) :
    Yields date (literal t) (Segment.literalOf t ++ found) := by
  rw [Segment.literalOf]
  split
  · refine ⟨h.normal, fun s _ => ?_⟩
    cases s <;> simp [Begins, *]
  · exact ⟨h.normal.cons ⟨‹_›, ht⟩ h.begins, by simp [Begins]⟩

theorem shorter {t : Text} {c : Char} (h : Yields date (literal (t ++ [c])) found) :
    Yields date (literal t) found := by
  refine ⟨h.normal, fun s hm => ?_⟩
  have hb := h.begins s hm
  cases s with
  | literal u => exact (List.prefix_append t [c]).trans hb
  | field code => exact absurd hb (by simp [Begins])
  | date code pattern => exact absurd hb (by simp [Begins])

theorem literalStep {t : Text} (ht : '$' ∉ t) {c : Char}
    (h : Yields date (PatternScan.literalStep t c).2 found) :
    Yields date (literal t) ((PatternScan.literalStep t c).1 ++ found) := by
  by_cases hc : c = '$'
  · rw [PatternScan.literalStep, if_pos hc] at h ⊢
    exact h.literalOf ht
  · rw [PatternScan.literalStep, if_neg hc] at h ⊢
    exact h.shorter

/-- Behind a date code, a character that opens no bracket leads to no literal that begins with one. -/
theorem precedes {c : Char} (hc : c ≠ '[') (h : Yields date (PatternScan.literalStep [] c).2 found) :
    ∀ next ∈ found.head?, ∀ t, next = .literal t → t.head? ≠ some '[' := by
  rintro _ hm t rfl
  have hb := h.begins _ hm
  rw [PatternScan.literalStep] at hb
  split at hb
  · exact absurd rfl (hb t)
  · obtain ⟨rest, rfl⟩ := hb
    simpa using hc

/-- What may come behind a character may come, with what the character completes, before it. -/
theorem step (h : scan.Sound date) {c : Char} (hy : Yields date (step date scan c).2 found) :
    Yields date scan ((PatternScan.step date scan c).1 ++ found) := by
  cases scan with
  | literal t => exact hy.literalStep h
  | code read =>
    cases read with
    | nil => exact ⟨hy.normal, hy.begins⟩
    | cons a read =>
      have hr : read = [] := by simpa [Sound] using h
      subst hr
      by_cases hd : [a, c] = date
      · simp only [PatternScan.step, List.cons_append, List.nil_append, hd, if_true] at hy ⊢
        exact ⟨hy.normal, hy.begins⟩
      · simp only [PatternScan.step, List.cons_append, List.nil_append, hd, if_false] at hy ⊢
        exact ⟨hy.normal.cons (Nat.le_refl 2) fun next _ => ⟨rfl, fun _ _ he => absurd he hd⟩,
          by simp [Begins]⟩
  | dateCode read =>
    by_cases hc : c = '['
    · rw [PatternScan.step, if_pos hc] at hy ⊢
      exact ⟨hy.normal, hy.begins⟩
    · rw [PatternScan.step, if_neg hc] at hy ⊢
      have hn := hy.precedes hc
      rw [literalStep_nil]
      exact ⟨hy.normal.cons (Nat.le_of_eq h.2) fun next hm => ⟨h.2, fun t he _ => hn next hm t he⟩,
        by simp [Begins]⟩
  | datePattern read pattern =>
    by_cases hc : c = ']'
    · rw [PatternScan.step, if_pos hc] at hy ⊢
      exact ⟨hy.normal.cons h fun _ _ => trivial, by simp [Begins]⟩
    · rw [PatternScan.step, if_neg hc] at hy ⊢
      exact ⟨hy.normal, hy.begins⟩

theorem finish (h : scan.Sound date) : Yields date scan scan.finish := by
  cases scan with
  | literal t => simpa [PatternScan.finish] using (nil (code [])).literalOf h
  | code read => exact ⟨.singleton (Nat.le_succ_of_le h), by simp [PatternScan.finish, Begins]⟩
  | dateCode read => exact ⟨.singleton (Nat.le_of_eq h.2), by simp [PatternScan.finish, Begins]⟩
  | datePattern read pattern => exact nil _

theorem segments (h : scan.Sound date) (t : Text) : Yields date scan (scan.segments date t) := by
  induction t generalizing scan with
  | nil => exact finish h
  | cons c t ih => exact step h (ih (h.step c))

end Yields

/-! Reading what has been written: each segment is found again, and the reading then begins anew. -/

theorem segments_literal {u : Text} (hu : '$' ∉ u) (t rest : Text) :
    segments date (literal t) (u ++ rest) = segments date (literal (t ++ u)) rest := by
  induction u generalizing t with
  | nil => simp
  | cons c u ih =>
    rw [List.mem_cons, not_or] at hu
    have hs : step date (literal t) c = ([], literal (t ++ [c])) := by
      rw [step, literalStep, if_neg (Ne.symm hu.1)]
    rw [List.cons_append, segments, hs, List.nil_append, ih hu.2, List.append_assoc,
      List.singleton_append]

theorem segments_sigil (t rest : Text) :
    segments date (literal t) ('$' :: rest) =
      Segment.literalOf t ++ segments date start ('$' :: rest) := rfl

theorem segments_datePattern {u : Text} (hu : ']' ∉ u) (read pattern rest : Text) :
    segments date (datePattern read pattern) (u ++ ']' :: rest) =
      .date read (pattern ++ u) :: segments date start rest := by
  induction u generalizing pattern with
  | nil => simp [segments, step]
  | cons c u ih =>
    rw [List.mem_cons, not_or] at hu
    have hs : step date (datePattern read pattern) c = ([], datePattern read (pattern ++ [c])) := by
      rw [step, if_neg (Ne.symm hu.1)]
    rw [List.cons_append, segments, hs, List.nil_append, ih hu.2, List.append_assoc,
      List.singleton_append]

/-- Without a bracket behind it the date's code is that of a field. -/
theorem segments_dateCode {rest : Text} (hr : rest.head? ≠ some '[') (read : Text) :
    segments date (dateCode read) rest = .field read :: segments date start rest := by
  cases rest with
  | nil => rfl
  | cons c rest =>
    have hc : c ≠ '[' := by simpa using hr
    rw [segments, step, if_neg hc]
    rfl

theorem segments_field {code rest : Text} (hl : code.length = 2)
    (hr : code = date → rest.head? ≠ some '[') :
    segments date start ('$' :: code ++ rest) = .field code :: segments date start rest := by
  obtain ⟨a, b, rfl⟩ := List.length_eq_two.mp hl
  by_cases hd : [a, b] = date
  · subst hd
    have hs : segments [a, b] start ('$' :: [a, b] ++ rest) = segments [a, b] (dateCode [a, b]) rest := by
      simp [segments, step, start, literalStep, Segment.literalOf]
    rw [hs, segments_dateCode (hr rfl)]
  · simp [segments, step, start, literalStep, Segment.literalOf, hd]

/-- At the end of a pattern a field may have less than a whole code. -/
theorem segments_last {code : Text} (hl : code.length ≤ 2) :
    segments date start ('$' :: code) = [.field code] := by
  match code, hl with
  | [], _ => rfl
  | [a], _ => rfl
  | [a, b], _ =>
    have hf : segments date start ('$' :: [a, b] ++ []) = .field [a, b] :: segments date start [] :=
      segments_field rfl (by simp)
    simpa [segments, finish, start, Segment.literalOf] using hf

theorem segments_bracket (hl : date.length = 2) (rest : Text) :
    segments date start ('$' :: date ++ '[' :: rest) = segments date (datePattern date []) rest := by
  obtain ⟨a, b, rfl⟩ := List.length_eq_two.mp hl
  simp [segments, step, start, literalStep, Segment.literalOf]

end PatternScan

namespace Segment

open PatternScan (start)

variable {date : Text} {segments : List Segment}

/-- Only a literal is written with anything but a `$` in front. -/
theorem head?_written {s : Segment} (hs : ∀ t, s ≠ literal t) (rest : Text) :
    (s.written ++ rest).head? = some '$' := by
  cases s with
  | literal t => exact absurd rfl (hs t)
  | field code => rfl
  | date code pattern => rfl

theorem ofPattern_literal {t : Text} (ht : (literal t).Sound date)
    (hn : ∀ next ∈ segments.head?, (literal t).Precedes date next) :
    ofPattern date (t ++ patternOf segments) = literal t :: ofPattern date (patternOf segments) := by
  rw [ofPattern, start, PatternScan.segments_literal ht.2, List.nil_append]
  cases segments with
  | nil => simp [PatternScan.segments, PatternScan.finish, ofPattern, literalOf, start, ht.1]
  | cons s segments =>
    obtain ⟨rest, hr⟩ := List.head?_eq_some_iff.mp (head?_written (hn s (by simp)) (patternOf segments))
    rw [patternOf_cons, hr, PatternScan.segments_sigil, literalOf, if_neg ht.1]
    rfl

theorem ofPattern_field {code : Text} (hc : (field code).Sound date) (h : IsNormal date segments)
    (hn : ∀ next ∈ segments.head?, (field code).Precedes date next) :
    ofPattern date ('$' :: code ++ patternOf segments) =
      field code :: ofPattern date (patternOf segments) := by
  cases segments with
  | nil =>
    rw [patternOf_nil, List.append_nil, ofPattern, PatternScan.segments_last hc]
    rfl
  | cons s segments =>
    obtain ⟨hl, hb⟩ := hn s (by simp)
    refine PatternScan.segments_field hl fun hd => ?_
    cases s with
    | literal t =>
      rw [patternOf_cons, written, List.head?_append_of_ne_nil t h.head.1]
      exact hb t rfl hd
    | field code => simp [written]
    | date code pattern => simp [written]

theorem ofPattern_date (hd : date.length = 2) {pattern : Text} (hp : ']' ∉ pattern) (rest : Text) :
    ofPattern date ((Segment.date date pattern).written ++ rest) =
      .date date pattern :: ofPattern date rest := by
  have hw : (Segment.date date pattern).written ++ rest =
      '$' :: date ++ '[' :: (pattern ++ ']' :: rest) := by
    simp [written]
  rw [hw, ofPattern, PatternScan.segments_bracket hd, PatternScan.segments_datePattern hp]
  rfl

/-- A list of segments in normal form is read back from the pattern that it is written as. -/
theorem ofPattern_patternOf (hd : date.length = 2) (h : IsNormal date segments) :
    ofPattern date (patternOf segments) = segments := by
  induction segments with
  | nil => rfl
  | cons s segments ih =>
    have hi := ih h.tail
    cases s with
    | literal t => rw [patternOf_cons, written, ofPattern_literal h.head h.precedes, hi]
    | field code => rw [patternOf_cons, written, ofPattern_field h.head h.tail h.precedes, hi]
    | date code pattern =>
      obtain ⟨rfl, hp⟩ := h.head
      rw [patternOf_cons, ofPattern_date hd hp, hi]

/-- No character of a pattern is lost but those of a date field whose bracket stays open. The segments of
a pattern are in normal form, and a list of segments is read back from its pattern just if it is. -/
theorem patterns_correspond (a b : Char) :
    (∀ t, match PatternScan.start.reached [a, b] t with
      | .datePattern code pattern =>
        t = patternOf (ofPattern [a, b] t) ++ '$' :: [a, b] ++ '[' :: pattern ∧
          code = [a, b] ∧ ']' ∉ pattern
      | _ => patternOf (ofPattern [a, b] t) = t) ∧
    (∀ t, IsNormal [a, b] (ofPattern [a, b] t)) ∧
    (∀ segments, ofPattern [a, b] (patternOf segments) = segments ↔ IsNormal [a, b] segments) := by
  have hs : start.Sound [a, b] := List.not_mem_nil
  have hn (t : Text) : IsNormal [a, b] (ofPattern [a, b] t) := (PatternScan.Yields.segments hs t).normal
  refine ⟨fun t => ?_, hn, fun segments => ⟨fun h => h ▸ hn _, ofPattern_patternOf rfl⟩⟩
  have hw : patternOf (ofPattern [a, b] t) ++ (start.reached [a, b] t).dropped = t :=
    PatternScan.patternOf_segments [a, b] start t
  have hr := hs.reached t
  cases he : start.reached [a, b] t with
  | datePattern code pattern =>
    rw [he] at hw hr
    obtain ⟨rfl, hp⟩ := hr
    exact ⟨by simpa [PatternScan.dropped] using hw.symm, rfl, hp⟩
  | literal u | code read | dateCode read =>
    rw [he] at hw
    simpa [PatternScan.dropped] using hw

/-- A code may hold any characters, and only a field at the end may be cut short. -/
example : ofPattern ['d', 't'] "a$$[$dt[[]$dt$d".toList = [.literal ['a'], .field ['$', '['],
    .date ['d', 't'] ['['], .field ['d', 't'], .field ['d']] := by
  decide

end Segment

end PhotoNaming
