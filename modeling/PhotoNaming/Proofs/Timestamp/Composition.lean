import PhotoNaming.Timestamp.Format

/-! Date patterns one behind the other. Where the first leaves no piece open, the two are filled in one by one.
So any text can be copied in the middle of a pattern, by backslashes or between quotes. -/
namespace PhotoNaming

namespace LetterPattern

variable {p q s written : Text} {quote : Char}

namespace Scan

/-- How far the reading of a pattern is behind `t`. -/
def reached (scan : Scan) (t : Text) : Scan := t.foldl (fun scan c => (step scan c).2) scan

/-- A reading that what comes behind it leaves as it is: no quotes are open, no backslash waits for its
character, and a run of a letter does not go on. -/
def SettledBefore (behind : Text) : Scan → Prop
  | between => True
  | run letter _ => behind.head? ≠ some letter
  | _ => False

instance (behind : Text) : (scan : Scan) → Decidable (scan.SettledBefore behind)
  | between => .isTrue trivial
  | run letter _ => inferInstanceAs (Decidable (behind.head? ≠ some letter))
  | quotation _ _ | escape => .isFalse id

variable {scan : Scan}

/-- A run ends in front of anything but its own letter. -/
theorem tokens_run {letter : Char} {width : Nat} (h : q.head? ≠ some letter) :
    (run letter width).tokens q = .run letter width :: between.tokens q := by
  cases q with
  | nil => rfl
  | cons c q =>
    have hc : c ≠ letter := fun hc => h (congrArg some hc)
    have hstep : step (run letter width) c = (.run letter width :: (begin c).1, (begin c).2) := if_neg hc
    rw [tokens, hstep]
    rfl

/-- The pieces up to a settled place do not depend on what comes behind it. -/
theorem tokens_append (h : (scan.reached p).SettledBefore q) :
    scan.tokens (p ++ q) = scan.tokens p ++ between.tokens q := by
  induction p generalizing scan with
  | nil =>
    cases scan with
    | between => rfl
    | run letter width => exact tokens_run h
    | quotation quote content | escape => exact h.elim
  | cons c p ih => rw [List.cons_append, tokens, tokens, ih h, List.append_assoc]

/-- Up to the quote that closes it, a quotation takes in all there is. -/
theorem tokens_quotation (h : quote ∉ s) (content : Text) :
    (quotation quote content).tokens (s ++ [quote]) = [.copied (content ++ s)] := by
  induction s generalizing content with
  | nil => simp [tokens, step, finish]
  | cons c s ih =>
    rw [List.mem_cons, not_or] at h
    rw [List.cons_append, tokens, step, if_neg (Ne.symm h.1), List.nil_append, ih h.2, List.append_assoc]
    rfl

theorem reached_quotation (h : quote ∉ s) (content : Text) :
    (quotation quote content).reached (s ++ [quote]) = between := by
  induction s generalizing content with
  | nil => simp [reached, step]
  | cons c s ih =>
    rw [List.mem_cons, not_or] at h
    have hstep : step (quotation quote content) c = ([], quotation quote (content ++ [c])) :=
      if_neg (Ne.symm h.1)
    rw [List.cons_append, reached, List.foldl_cons, hstep]
    exact ih h.2 _

theorem begin_backslash : begin '\\' = ([], escape) := by decide

theorem begin_quote (h : isQuote quote) : begin quote = ([], quotation quote []) := by
  have hq : quote = '\'' ∨ quote = '"' := by simpa [isQuote] using h
  rcases hq with rfl | rfl
  · decide
  · decide

end Scan

open Scan

variable {t : Timestamp}

theorem render_append (h : (between.reached p).SettledBefore q) : render t (p ++ q) = render t p ++ render t q := by
  rw [render, tokens, tokens_append h, List.flatMap_append]
  rfl

/-- The ways of writing a text so that a pattern copies it: each character behind a backslash, or all of them
between two quotes of a kind that is not among them. -/
inductive Quotes (s : Text) : Text → Prop
  | escaped : Quotes s (s.flatMap fun c => ['\\', c])
  | enclosed {quote : Char} : isQuote quote → quote ∉ s → Quotes s (quote :: s ++ [quote])

namespace Quotes

theorem reached (h : Quotes s written) : between.reached written = between := by
  cases h with
  | escaped =>
    induction s with
    | nil => rfl
    | cons c s ih =>
      rw [List.flatMap_cons, List.cons_append, Scan.reached, List.foldl_cons, step, begin_backslash]
      exact ih
  | enclosed hq hs =>
    rw [List.cons_append, Scan.reached, List.foldl_cons, step, begin_quote hq]
    exact reached_quotation hs []

theorem render_eq (h : Quotes s written) : render t written = s := by
  rw [render, tokens]
  cases h with
  | escaped =>
    induction s with
    | nil => rfl
    | cons c s ih =>
      rw [List.flatMap_cons, List.cons_append, Scan.tokens, step, begin_backslash, List.nil_append,
        List.cons_append, Scan.tokens, step, List.flatMap_append, List.nil_append, ih]
      rfl
  | enclosed hq hs =>
    rw [List.cons_append, Scan.tokens, step, begin_quote hq, tokens_quotation hs]
    simp [Token.text]

/-- In a longer pattern, a quoted text stands for itself between what the two sides stand for. -/
theorem render_around (h : Quotes s written) (hp : (between.reached p).SettledBefore (written ++ q)) :
    render t (p ++ written ++ q) = render t p ++ s ++ render t q := by
  have hq : (between.reached written).SettledBefore q := by
    rw [h.reached]
    trivial
  rw [List.append_assoc, render_append hp, render_append hq, h.render_eq, List.append_assoc]

theorem percent_notMem (h : Quotes s written) (hs : '%' ∉ s) : '%' ∉ written := by
  cases h with
  | escaped =>
    simp only [List.mem_flatMap, List.mem_cons, List.not_mem_nil, or_false, not_exists, not_and, not_or]
    intro c hc
    exact ⟨by decide, fun he => hs (he ▸ hc)⟩
  | @enclosed quote hq _ =>
    have hne : '%' ≠ quote := by
      rintro rfl
      exact absurd hq (by decide)
    simp [hs, hne]

theorem length_ne_one (h : Quotes s written) : written.length ≠ 1 := by
  cases h with
  | escaped =>
    simp only [List.length_flatMap, List.length_cons, List.length_nil, List.map_const', List.sum_replicate_nat]
    omega
  | enclosed => simp

end Quotes

/-- Only single letters are standard patterns. -/
theorem standard?_of_length (h : p.length ≠ 1) : standard? p = none := by
  match p, h with
  | [], _ => rfl
  | [_], h => exact absurd rfl h
  | _ :: _ :: _, _ => simp [standard?]

end LetterPattern

namespace Timestamp

open LetterPattern

theorem format_eq_render {t : Timestamp} {p : Text} (hp : '%' ∉ p) (hs : standard? p = none) :
    t.format p = render t p := by
  rw [format, if_neg (by simpa using hp), hs]
  rfl

/-- Two patterns without `%` are filled in one by one where the reading of the first leaves no piece open, if
neither of them nor both together are a standard pattern. Every text without `%` can be quoted: alone it gives
itself, and between other pieces it leaves these as they are. -/
theorem formats_compose (t : Timestamp) :
    (∀ p q : Text, '%' ∉ p → '%' ∉ q →
      standard? p = none → standard? q = none → standard? (p ++ q) = none →
      (Scan.between.reached p).SettledBefore q → t.format (p ++ q) = t.format p ++ t.format q) ∧
    ∀ s written : Text, '%' ∉ s → Quotes s written →
      t.format written = s ∧
      ∀ p q : Text, '%' ∉ p → '%' ∉ q → standard? (p ++ written ++ q) = none →
        (Scan.between.reached p).SettledBefore (written ++ q) →
        t.format (p ++ written ++ q) = render t p ++ s ++ render t q := by
  refine ⟨fun p q hp hq hsp hsq hspq hset => ?_, fun s written hs hw => ⟨?_, fun p q hp hq hspq hset => ?_⟩⟩
  · have hpq : '%' ∉ p ++ q := by simp [hp, hq]
    rw [format_eq_render hpq hspq, format_eq_render hp hsp, format_eq_render hq hsq, render_append hset]
  · rw [format_eq_render (hw.percent_notMem hs) (standard?_of_length hw.length_ne_one), hw.render_eq]
  · have hpq : '%' ∉ p ++ written ++ q := by simp [hp, hw.percent_notMem hs, hq]
    rw [format_eq_render hpq hspq, hw.render_around hset]

/-- Hours and minutes without anything between them, and with the letter `h` in its two quoted forms. -/
theorem hour_and_minute_compose :
    let t : Timestamp := ⟨2021, 10, 26, 14, 5, 9, 0, by decide, by decide, by decide⟩
    t.format "HHmm" = t.format "HH" ++ t.format "mm" ∧
      t.format "HH\\hmm" = "14h05".toList ∧ t.format "HH'h'mm" = "14h05".toList := by
  intro t
  obtain ⟨hparts, hquotes⟩ := formats_compose t
  have hhours : render t "HH" = "14".toList := by decide
  have hminutes : render t "mm" = "05".toList := by decide
  refine ⟨hparts "HH" "mm" (by decide) (by decide) rfl rfl rfl (by decide), ?_, ?_⟩
  · have hescaped := (hquotes ['h'] ['\\', 'h'] (by decide) .escaped).2 "HH" "mm"
      (by decide) (by decide) rfl (by decide)
    rw [hhours, hminutes] at hescaped
    exact hescaped
  · have henclosed := (hquotes ['h'] ['\'', 'h', '\''] (by decide) (.enclosed rfl (by decide))).2 "HH" "mm"
      (by decide) (by decide) rfl (by decide)
    rw [hhours, hminutes] at henclosed
    exact henclosed

end Timestamp

end PhotoNaming
