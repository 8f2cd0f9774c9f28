import PhotoNaming.Value.Reading
import PhotoNaming.Proofs.Duration.Adding
import Mathlib.Logic.Relation

/-! Exposure times are read as sums over pairs of a number and a unit. Only hours, minutes and seconds count,
each known by its first letter. -/
namespace PhotoNaming

namespace Text

/-- A blank between two texts keeps their words apart. -/
theorem words_append_blank {c : Char} (hc : isBlank c) (s t : Text) :
    words (s ++ c :: t) = words s ++ words t := by
  rw [words, List.splitOnP_append_cons s t hc, List.filter_append, words, words]

end Text

namespace Reading

open Duration (SumsFit total)

/-- The length of the unit with the given first letter. -/
def letterLength? : Char → Option Nat
  | 'h' => some Duration.hour
  | 'm' => some Duration.minute
  | 's' => some Duration.second
  | _ => none

/-- The first letter of a unit, in lower case. -/
def letter? : Text → Option Char
  | [] => none
  | c :: _ => (Text.lowered [c]).head?

/-- The words as pairs of a number and a unit. A word left over is in none of them. -/
def pairUp : List Text → List (Text × Text)
  | [] => []
  | [_] => []
  | number :: unit :: rest => (number, unit) :: pairUp rest

def pairs (t : Text) : List (Text × Text) := pairUp (Text.words t)

/-- The number and the letter of a pair with hours, minutes or seconds. -/
def counted? (p : Text × Text) : Option (Text × Char) :=
  ((letter? p.2).filter fun letter => (letterLength? letter).isSome).map fun letter => (p.1, letter)

/-- The pairs that count. -/
def counted (ps : List (Text × Text)) : List (Text × Char) := ps.filterMap counted?

/-- What a pair with the given letter adds. -/
def part? (p : Text × Char) : Option Duration := do
  let x ← (magnitude p.1).toOption
  let length ← letterLength? p.2
  (Duration.ofReal length x).toOption

/-- The lengths of time that are added up. -/
def parts (ps : List (Text × Text)) : List Duration := (counted ps).filterMap part?

/-- A change that keeps what counts: another order, another case or another ending of a unit, and a pair with
a unit that does not count. -/
inductive Change : List (Text × Text) → List (Text × Text) → Prop
  | reordered {ps qs : List (Text × Text)} (h : ps.Perm qs) : Change ps qs
  | recased {front back : List (Text × Text)} {number unit other : Text}
      (h : Text.lowered unit = Text.lowered other) :
      Change (front ++ (number, unit) :: back) (front ++ (number, other) :: back)
  | respelled {front back : List (Text × Text)} {number rest other : Text} {c : Char} :
      Change (front ++ (number, c :: rest) :: back) (front ++ (number, c :: other) :: back)
  | added {front back : List (Text × Text)} {number unit : Text} (hu : unitLength? unit = none)
      (hn : (magnitude number).isOk) : Change (front ++ back) (front ++ (number, unit) :: back)

/-- Whether the text consists of pairs, and every first part of one is a number or a fraction. -/
structure IsPaired (t : Text) : Prop where
  ne_nil : Text.words t ≠ []
  even : 2 ∣ (Text.words t).length
  readable : ∀ p ∈ pairs t, (magnitude p.1).isOk

/-- Whether moreover every pair that counts adds a length of time. -/
structure HasParts (t : Text) : Prop extends IsPaired t where
  lengths : ∀ p ∈ counted (pairs t), (part? p).isSome

variable {t a b number unit : Text} {words : List Text} {ps qs : List (Text × Text)} {d x y : Duration}
  {length : Nat}

theorem letter?_eq (unit : Text) : letter? unit = (Text.lowered unit).head? := by
  cases unit with
  | nil => rfl
  | cons c rest => exact (Text.head?_lowered c rest).symm

theorem unitLength?_eq (unit : Text) : unitLength? unit = (letter? unit).bind letterLength? := by
  rw [letter?_eq, unitLength?]
  cases Text.lowered unit with
  | nil => rfl
  | cons c rest =>
    rw [List.head?_cons, Option.bind_some, letterLength?.eq_def]
    split <;> simp_all

theorem counted_cons_of_none (h : unitLength? unit = none) : counted ((number, unit) :: ps) = counted ps := by
  rw [unitLength?_eq] at h
  refine List.filterMap_cons_none ?_
  cases hl : letter? unit with
  | none => simp [counted?, hl]
  | some letter => simp_all [counted?]

theorem exists_counted_cons (number : Text) (ps : List (Text × Text)) (h : unitLength? unit = some length) :
    ∃ letter, letterLength? letter = some length ∧
      counted ((number, unit) :: ps) = (number, letter) :: counted ps := by
  rw [unitLength?_eq] at h
  obtain ⟨letter, hl, hlength⟩ := Option.bind_eq_some_iff.mp h
  exact ⟨letter, hlength, List.filterMap_cons_some (by simp [counted?, hl, hlength])⟩

theorem part?_eq {letter : Char} {x : Binary64} (hx : magnitude number = .ok x)
    (hl : letterLength? letter = some length) : part? (number, letter) = (Duration.ofReal length x).toOption := by
  simp [part?, hx, hl, Except.toOption]

theorem even_cons_cons : 2 ∣ (number :: unit :: words).length ↔ 2 ∣ words.length :=
  Nat.dvd_add_left (Nat.dvd_refl 2)

theorem durationSum_cons_of_none {x : Binary64} (hx : magnitude number = .ok x) (hl : unitLength? unit = none) :
    durationSum d (number :: unit :: words) = durationSum d words := by
  rw [durationSum, hx, ok_bind, hl]

theorem durationSum_cons {x : Binary64} (hx : magnitude number = .ok x) (hl : unitLength? unit = some length) :
    durationSum d (number :: unit :: words) =
      (Duration.ofReal length x).mapError .duration >>= fun part =>
        (d.add part).mapError .duration >>= fun sum => durationSum sum words := by
  rw [durationSum, hx, ok_bind, hl]

/-- Where all numbers are readable and every pair that counts has a length, these lengths are added up. -/
theorem durationSum_eq (he : 2 ∣ words.length) (hr : ∀ p ∈ pairUp words, (magnitude p.1).isOk)
    (hp : ∀ p ∈ counted (pairUp words), (part? p).isSome) :
    durationSum d words = ((parts (pairUp words)).foldlM Duration.add d).mapError .duration := by
  induction words using pairUp.induct generalizing d with
  | case1 => rfl
  | case2 word => exact absurd he (by simp)
  | case3 number unit rest ih =>
    have he' : 2 ∣ rest.length := even_cons_cons.mp he
    obtain ⟨x, hx⟩ := exists_eq_ok_of_isOk (hr (number, unit) List.mem_cons_self)
    have ih' := fun d => @ih d he' fun p hp => hr p (List.mem_cons_of_mem _ hp)
    rw [pairUp] at hp ⊢
    rw [parts]
    cases hl : unitLength? unit with
    | none =>
      rw [counted_cons_of_none hl] at hp ⊢
      rw [durationSum_cons_of_none hx hl]
      exact ih' d hp
    | some length =>
      obtain ⟨letter, hletter, hc⟩ := exists_counted_cons number (pairUp rest) hl
      rw [hc] at hp ⊢
      obtain ⟨part, hpart⟩ := Option.isSome_iff_exists.mp (hp _ List.mem_cons_self)
      rw [List.filterMap_cons_some hpart, List.foldlM_cons]
      rw [part?_eq hx hletter, toOption_eq_some_iff] at hpart
      rw [durationSum_cons hx hl, mapError_eq_ok_iff.mpr hpart, ok_bind]
      cases d.add part with
      | error fault => rfl
      | ok sum => exact ih' sum fun p h => hp p (List.mem_cons_of_mem _ h)

/-- A sum that is found has read everything. -/
theorem readable_of_durationSum (h : durationSum d words = .ok x) :
    2 ∣ words.length ∧ (∀ p ∈ pairUp words, (magnitude p.1).isOk) ∧
      ∀ p ∈ counted (pairUp words), (part? p).isSome := by
  induction words using pairUp.induct generalizing d with
  | case1 => exact ⟨Nat.dvd_zero 2, nofun, nofun⟩
  | case2 word =>
    obtain ⟨m, hm, h⟩ := bind_eq_ok_iff.mp h
    cases h
  | case3 number unit rest ih =>
    obtain ⟨m, hm, h'⟩ := bind_eq_ok_iff.mp h
    have hok : (magnitude number).isOk := by rw [hm]; rfl
    rw [pairUp]
    cases hl : unitLength? unit with
    | none =>
      rw [durationSum_cons_of_none hm hl] at h
      obtain ⟨he, hr, hp⟩ := ih h
      rw [counted_cons_of_none hl]
      exact ⟨even_cons_cons.mpr he, List.forall_mem_cons.mpr ⟨hok, hr⟩, hp⟩
    | some length =>
      rw [durationSum_cons hm hl] at h
      obtain ⟨part, hpart, h⟩ := bind_eq_ok_iff.mp h
      obtain ⟨sum, hsum, h⟩ := bind_eq_ok_iff.mp h
      obtain ⟨he, hr, hp⟩ := ih h
      obtain ⟨letter, hletter, hc⟩ := exists_counted_cons number (pairUp rest) hl
      have hsome : (part? (number, letter)).isSome := by
        rw [part?_eq hm hletter, mapError_eq_ok_iff.mp hpart]
        rfl
      rw [hc]
      exact ⟨even_cons_cons.mpr he, List.forall_mem_cons.mpr ⟨hok, hr⟩,
        List.forall_mem_cons.mpr ⟨hsome, hp⟩⟩

theorem duration_eq_durationSum (h : Text.words t ≠ []) : duration t = durationSum .zero (Text.words t) := by
  rw [duration]
  split
  · contradiction
  · rfl

theorem HasParts.duration_eq (h : HasParts t) :
    duration t = ((parts (pairs t)).foldlM Duration.add .zero).mapError .duration := by
  rw [duration_eq_durationSum h.ne_nil, durationSum_eq h.even h.readable h.lengths, pairs]

theorem hasParts_of_duration (h : duration t = .ok x) : HasParts t := by
  have hne : Text.words t ≠ [] := by
    intro hnil
    rw [duration, hnil] at h
    cases h
  rw [duration_eq_durationSum hne] at h
  obtain ⟨he, hr, hp⟩ := readable_of_durationSum h
  exact ⟨⟨hne, he, hr⟩, hp⟩

/-- Whether a sum on the way is out of range when the text is read. -/
def Overflows (t : Text) : Prop := ∃ days, duration t = .error (.duration (.days days))

theorem HasParts.duration_of_sumsFit (h : HasParts t) (hs : SumsFit 0 (parts (pairs t))) :
    ∃ sum, duration t = .ok sum ∧ sum.microseconds = total (parts (pairs t)) := by
  obtain ⟨sum, hsum, heq⟩ := Duration.foldlM_add_of_sumsFit (d := .zero) hs
  refine ⟨sum, ?_, heq.trans (Int.zero_add _)⟩
  rw [h.duration_eq, hsum]
  rfl

theorem HasParts.overflows (h : HasParts t) (hs : ¬ SumsFit 0 (parts (pairs t))) : Overflows t := by
  obtain ⟨days, hdays⟩ := Duration.foldlM_add_of_not_sumsFit (d := .zero) hs
  refine ⟨days, ?_⟩
  rw [h.duration_eq, hdays]
  rfl

theorem microseconds_of_duration (h : duration t = .ok x) : x.microseconds = total (parts (pairs t)) := by
  have ht := hasParts_of_duration h
  by_cases hs : SumsFit 0 (parts (pairs t))
  · obtain ⟨sum, hsum, heq⟩ := ht.duration_of_sumsFit hs
    rw [h] at hsum
    rw [Except.ok.inj hsum, heq]
  · obtain ⟨days, hdays⟩ := ht.overflows hs
    rw [h] at hdays
    cases hdays

theorem pairUp_append {more : List Text} (h : 2 ∣ words.length) :
    pairUp (words ++ more) = pairUp words ++ pairUp more := by
  induction words using pairUp.induct with
  | case1 => rfl
  | case2 word => exact absurd h (by simp)
  | case3 number unit rest ih =>
    rw [List.cons_append, List.cons_append, pairUp, pairUp, List.cons_append,
      ih (even_cons_cons.mp h)]

theorem pairs_append (ha : 2 ∣ (Text.words a).length) : pairs (a ++ ' ' :: b) = pairs a ++ pairs b := by
  rw [pairs, Text.words_append_blank (by decide), pairUp_append ha, pairs, pairs]

theorem counted_append : counted (ps ++ qs) = counted ps ++ counted qs :=
  List.filterMap_append

theorem parts_append : parts (ps ++ qs) = parts ps ++ parts qs := by
  rw [parts, counted_append, List.filterMap_append, parts, parts]

theorem HasParts.append (ha : HasParts a) (hb : HasParts b) : HasParts (a ++ ' ' :: b) where
  ne_nil := by
    rw [Text.words_append_blank (by decide)]
    exact List.append_ne_nil_of_left_ne_nil ha.ne_nil _
  even := by
    rw [Text.words_append_blank (by decide), List.length_append]
    exact Nat.dvd_add ha.even hb.even
  readable := by
    rw [pairs_append ha.even]
    exact List.forall_mem_append.mpr ⟨ha.readable, hb.readable⟩
  lengths := by
    rw [pairs_append ha.even, counted_append]
    exact List.forall_mem_append.mpr ⟨ha.lengths, hb.lengths⟩

/-- Two texts with a blank between them are read as the sum of both, if nothing on the way is out of range. -/
theorem duration_append (ha : duration a = .ok x) (hb : duration b = .ok y) :
    (SumsFit 0 (parts (pairs a) ++ parts (pairs b)) →
      ∃ sum, x.add y = .ok sum ∧ duration (a ++ ' ' :: b) = .ok sum) ∧
    (¬ SumsFit 0 (parts (pairs a) ++ parts (pairs b)) → Overflows (a ++ ' ' :: b)) := by
  have hpa := hasParts_of_duration ha
  have hab := hpa.append (hasParts_of_duration hb)
  rw [← parts_append, ← pairs_append hpa.even]
  refine ⟨fun hs => ?_, hab.overflows⟩
  obtain ⟨sum, hsum, heq⟩ := hab.duration_of_sumsFit hs
  rw [pairs_append hpa.even, parts_append, Duration.total_append, ← microseconds_of_duration ha,
    ← microseconds_of_duration hb] at heq
  obtain ⟨added, hadded, heq'⟩ := Duration.add_of_fits (heq ▸ sum.fits)
  refine ⟨sum, ?_, hsum⟩
  rw [hadded, Duration.eq_of_microseconds (heq'.trans heq.symm)]

theorem total_parts_eq_of_perm (h : (counted qs).Perm (counted ps)) : total (parts qs) = total (parts ps) :=
  Duration.total_eq_of_perm (h.filterMap part?)

/-- Only the pairs that count decide on the sum, in whatever order. -/
theorem duration_of_perm (ha : duration a = .ok x) (hb : IsPaired b)
    (h : (counted (pairs b)).Perm (counted (pairs a))) :
    (SumsFit 0 (parts (pairs b)) → duration b = .ok x) ∧ (¬ SumsFit 0 (parts (pairs b)) → Overflows b) := by
  have hpb : HasParts b := ⟨hb, fun p hp => (hasParts_of_duration ha).lengths p (h.mem_iff.mp hp)⟩
  refine ⟨fun hs => ?_, hpb.overflows⟩
  obtain ⟨sum, hsum, heq⟩ := hpb.duration_of_sumsFit hs
  rw [total_parts_eq_of_perm h, ← microseconds_of_duration ha] at heq
  rw [hsum, Duration.eq_of_microseconds heq]

theorem counted_congr {front back : List (Text × Text)} {other : Text} (h : letter? unit = letter? other) :
    counted (front ++ (number, unit) :: back) = counted (front ++ (number, other) :: back) := by
  simp [counted, List.filterMap_cons, counted?, h]

theorem Change.counted_perm (h : Change ps qs) : (counted qs).Perm (counted ps) := by
  cases h with
  | reordered h => exact (h.filterMap counted?).symm
  | recased h => exact .of_eq (counted_congr (by rw [letter?_eq, letter?_eq, h])).symm
  | respelled => exact .of_eq (counted_congr rfl)
  | added hu hn => rw [counted_append, counted_cons_of_none hu, ← counted_append]

theorem Change.readable (h : Change ps qs) (hp : ∀ p ∈ ps, (magnitude p.1).isOk) :
    ∀ q ∈ qs, (magnitude q.1).isOk := by
  cases h with
  | reordered h => exact fun q hq => hp q (h.mem_iff.mpr hq)
  | recased | respelled =>
    rw [List.forall_mem_append, List.forall_mem_cons] at hp ⊢
    exact hp
  | added hu hn =>
    rw [List.forall_mem_append] at hp ⊢
    exact ⟨hp.1, List.forall_mem_cons.mpr ⟨hn, hp.2⟩⟩

theorem Change.ne_nil (h : Change ps qs) (hp : ps ≠ []) : qs ≠ [] := by
  cases h with
  | reordered h => exact fun hq => hp (hq ▸ h).eq_nil
  | recased | respelled | added => simp

theorem IsPaired.pairs_ne_nil (h : IsPaired t) : pairs t ≠ [] := by
  rw [pairs]
  match Text.words t, h.ne_nil, h.even with
  | [], hne, _ => exact absurd rfl hne
  | [_], _, he => exact absurd he (by simp)
  | number :: unit :: rest, _, _ => exact List.cons_ne_nil _ _

/-- Any number of changes keep the numbers readable, and what counts. -/
theorem changes_keep (h : Relation.ReflTransGen Change ps qs) (hne : ps ≠ [])
    (hr : ∀ p ∈ ps, (magnitude p.1).isOk) :
    qs ≠ [] ∧ (∀ q ∈ qs, (magnitude q.1).isOk) ∧ (counted qs).Perm (counted ps) := by
  induction h with
  | refl => exact ⟨hne, hr, .refl _⟩
  | tail _ step ih =>
    obtain ⟨hne, hr, hperm⟩ := ih
    exact ⟨step.ne_nil hne, step.readable hr, step.counted_perm.trans hperm⟩

theorem IsPaired.of_changes (ha : IsPaired a) (hb : 2 ∣ (Text.words b).length)
    (h : Relation.ReflTransGen Change (pairs a) (pairs b)) : IsPaired b where
  ne_nil := by
    intro hw
    refine (changes_keep h ha.pairs_ne_nil ha.readable).1 ?_
    rw [pairs, hw, pairUp]
  even := hb
  readable := (changes_keep h ha.pairs_ne_nil ha.readable).2.1

/-- Exposure times add up: a text is read as the sum of its parts, and two texts as the sum of both. The pairs
that count decide on what is read, not their order, the spelling of their units, the white space or the pairs
that do not count. A sum out of range on the way ends the reading. -/
theorem durations_add_up (a b : Text) (x : Duration) (ha : duration a = .ok x) :
    x.microseconds = total (parts (pairs a)) ∧
    (∀ y, duration b = .ok y →
      (SumsFit 0 (parts (pairs a) ++ parts (pairs b)) →
        ∃ sum, x.add y = .ok sum ∧ duration (a ++ ' ' :: b) = .ok sum) ∧
      (¬ SumsFit 0 (parts (pairs a) ++ parts (pairs b)) → Overflows (a ++ ' ' :: b))) ∧
    (∀ y, duration b = .ok y → (counted (pairs b)).Perm (counted (pairs a)) → y = x) ∧
    (2 ∣ (Text.words b).length → Relation.ReflTransGen Change (pairs a) (pairs b) →
      (SumsFit 0 (parts (pairs b)) → duration b = .ok x) ∧
      (¬ SumsFit 0 (parts (pairs b)) → Overflows b)) := by
  refine ⟨microseconds_of_duration ha, fun y hy => duration_append ha hy, fun y hy hperm => ?_,
    fun he hc => ?_⟩
  · apply Duration.eq_of_microseconds
    rw [microseconds_of_duration hy, microseconds_of_duration ha, total_parts_eq_of_perm hperm]
  · have hpa := (hasParts_of_duration ha).toIsPaired
    exact duration_of_perm ha (hpa.of_changes he hc) (changes_keep hc hpa.pairs_ne_nil hpa.readable).2.2

/-- An hour and 30 seconds, and two minutes more; the same in another order and spelling, with days that do
not count; and two lengths of time that are too long together. -/
theorem three_sums :
    (∃ sum, Duration.add ⟨3630000000, by decide, by decide⟩ ⟨120000000, by decide, by decide⟩ = .ok sum ∧
      duration ("1 hour 30 s".toList ++ ' ' :: "2 Min".toList) = .ok sum) ∧
    duration "9 days \t30 S 1 h".toList = .ok ⟨3630000000, by decide, by decide⟩ ∧
    Overflows ("23999999999 h".toList ++ ' ' :: "1 h".toList) := by
  have hour : duration "1 hour 30 s".toList = .ok ⟨3630000000, by decide, by decide⟩ := by decide +kernel
  have changes : Relation.ReflTransGen Change (pairs "1 hour 30 s".toList) (pairs "9 days \t30 S 1 h".toList) := by
    have hold : pairs "1 hour 30 s".toList = [("1".toList, "hour".toList), ("30".toList, "s".toList)] := by
      decide +kernel
    have hnew : pairs "9 days \t30 S 1 h".toList =
        [("9".toList, "days".toList), ("30".toList, "S".toList), ("1".toList, "h".toList)] := by
      decide +kernel
    have recased : Change [("30".toList, "s".toList), ("1".toList, "hour".toList)]
        [("30".toList, "S".toList), ("1".toList, "hour".toList)] :=
      @Change.recased [] _ _ _ _ (by decide +kernel)
    have respelled : Change [("30".toList, "S".toList), ("1".toList, "hour".toList)]
        [("30".toList, "S".toList), ("1".toList, "h".toList)] :=
      @Change.respelled [("30".toList, "S".toList)] _ _ _ _ _
    rw [hold, hnew]
    exact .head (.reordered (.swap _ _ [])) <| .head recased <| .head respelled <|
      .single (@Change.added [] _ _ _ (by decide +kernel) (by decide +kernel))
  refine ⟨?_, ?_, ?_⟩
  · exact ((durations_add_up _ "2 Min".toList _ hour).2.1 _ (by decide +kernel)).1 (by decide +kernel)
  · exact ((durations_add_up _ _ _ hour).2.2.2 (by decide +kernel) changes).1 (by decide +kernel)
  · have long : duration "23999999999 h".toList = .ok ⟨86399999996400000000, by decide, by decide⟩ := by
      decide +kernel
    have short : duration "1 h".toList = .ok ⟨3600000000, by decide, by decide⟩ := by decide +kernel
    exact ((durations_add_up _ _ _ long).2.1 _ short).2 (by decide +kernel)

end Reading

end PhotoNaming
