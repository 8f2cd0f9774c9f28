import PhotoNaming.Proofs.Value.ComparisonSort
import PhotoNaming.Proofs.Value.Order

/-! Sorting values. All that can be asked about two values on one scale comes from one total order, and no
question has an answer across scales. So every way to sort meets two values that it cannot compare if there
are any, wherever they stand, and all ways to sort come to the same. -/
namespace PhotoNaming

namespace Value

/-- How two values on one scale stand to each other. -/
def ordering (a b : Value) : Ordering := if a.Before b then .lt else if b.Before a then .gt else .eq

/-- Whether values that stand to each other in a certain way are in a relation. -/
def Relation.holds : Relation → Ordering → Bool
  | .less => Ordering.isLT
  | .lessOrSame => Ordering.isLE
  | .greater => Ordering.isGT
  | .greaterOrSame => Ordering.isGE

/-- Sorts by asking of two values whether the first one is less. -/
def sortBy {values : List Value} (s : ComparisonSort values.length) : Except OrderFault (List Value) :=
  (s.run fun i j => compare .less values[i] values[j]).map fun order => order.map values.get

/-- Whether the value at one place comes before the one at another place. -/
def beforeAt (values : List Value) (i j : Fin values.length) : Bool := decide (values[i].Before values[j])

/-- The same order with whole scales in front of each other, as their numbers are. -/
def aheadAt (number : Scale → Int) (values : List Value) (i j : Fin values.length) : Bool :=
  decide (number values[i].scale < number values[j].scale ∨ values[i].Before values[j])

variable {a b c : Value} {values : List Value} {number : Scale → Int} {s : ComparisonSort values.length}

theorem Before.asymm (h : a.Before b) : ¬ b.Before a := fun h' => a.not_before_self (h.trans h')

/-- A value on the scale is behind the first of two or before the second. -/
theorem Before.split (h : a.Before c) (hk : b.scale = c.scale) (hb : b ≠ notANumber) :
    a.Before b ∨ b.Before c := by
  rcases before_cases hk hb h.ne_notANumber.2 with hbc | hbc | hcb
  · exact .inr hbc
  · exact .inl (h.trans_same hbc.symm)
  · exact .inl (h.trans hcb)

section Relations

variable (hk : a.scale = b.scale) (ha : a ≠ notANumber) (hb : b ≠ notANumber)

include hk ha hb

theorem ordering_cases :
    a.Before b ∧ ¬ a.Same b ∧ ¬ b.Before a ∧ ordering a b = .lt ∧ ordering b a = .gt ∨
      ¬ a.Before b ∧ a.Same b ∧ ¬ b.Before a ∧ ordering a b = .eq ∧ ordering b a = .eq ∨
      ¬ a.Before b ∧ ¬ a.Same b ∧ b.Before a ∧ ordering a b = .gt ∧ ordering b a = .lt := by
  have apart {x y : Value} (hs : x.Same y) : ¬ x.Before y :=
    fun h => x.not_before_self (h.trans_same hs.symm)
  rcases before_cases hk ha hb with h | h | h
  · exact .inl ⟨h, fun hs => apart hs h, h.asymm, by simp [ordering, h], by simp [ordering, h, h.asymm]⟩
  · have hab := apart h
    have hba := apart h.symm
    exact .inr (.inl ⟨hab, h, hba, by simp [ordering, hab, hba], by simp [ordering, hab, hba]⟩)
  · exact .inr (.inr ⟨h.asymm, fun hs => apart hs.symm h, h, by simp [ordering, h, h.asymm],
      by simp [ordering, h]⟩)

theorem compare_eq_holds (r : Relation) : compare r a b = .ok (r.holds (ordering a b)) := by
  rw [compare.eq_def, if_neg (not_not_intro (kind_eq_of_scale_eq hk)), if_neg (not_not_intro hk)]
  rcases ordering_cases hk ha hb with ⟨h, hs, h', ho, _⟩ | ⟨h, hs, h', ho, _⟩ | ⟨h, hs, h', ho, _⟩
  · cases r <;> simp [Relation.holds, h, hs, ho]
  · cases r <;> simp [Relation.holds, h, hs, ho]
  · cases r <;> simp [Relation.holds, h, hs, ho]

theorem same_iff_ordering : a.Same b ↔ ordering a b = .eq := by
  rcases ordering_cases hk ha hb with ⟨_, hs, _, ho, _⟩ | ⟨_, hs, _, ho, _⟩ | ⟨_, hs, _, ho, _⟩
  · simp [hs, ho]
  · simp [hs, ho]
  · simp [hs, ho]

theorem ordering_swap : ordering b a = (ordering a b).swap := by
  rcases ordering_cases hk ha hb with ⟨_, _, _, ho, ho'⟩ | ⟨_, _, _, ho, ho'⟩ | ⟨_, _, _, ho, ho'⟩
  · rw [ho, ho']; rfl
  · rw [ho, ho']; rfl
  · rw [ho, ho']; rfl

theorem isLE_ordering_iff : (ordering a b).isLE ↔ ¬ b.Before a := by
  rcases ordering_cases hk ha hb with ⟨_, _, h, ho, _⟩ | ⟨_, _, h, ho, _⟩ | ⟨_, _, h, ho, _⟩
  · simp [h, ho]
  · simp [h, ho]
  · simp [h, ho]

theorem isLE_ordering_trans (hkc : b.scale = c.scale) (hc : c ≠ notANumber) (h : (ordering a b).isLE)
    (h' : (ordering b c).isLE) : (ordering a c).isLE := by
  rw [isLE_ordering_iff hk ha hb] at h
  rw [isLE_ordering_iff hkc hb hc] at h'
  rw [isLE_ordering_iff (hk.trans hkc) ha hc]
  intro hca
  rcases hca.split hk.symm hb with hcb | hba
  · exact h' hcb
  · exact h hba

end Relations

/-- With scales in any order, values can be ordered across scales. -/
theorem isWeakOrder_aheadAt (hi : Function.Injective number) (hn : ∀ v ∈ values, v ≠ notANumber) :
    IsWeakOrder (aheadAt number values) := by
  constructor
  · intro i j h
    rw [aheadAt, decide_eq_true_eq] at h
    rw [aheadAt, decide_eq_false_iff_not]
    rintro (hlt | hb)
    · rcases h with h | h
      · omega
      · rw [h.scale_eq] at hlt
        omega
    · rcases h with h | h
      · rw [hb.scale_eq] at h
        omega
      · exact h.asymm hb
  · intro i j k h
    simp only [aheadAt, decide_eq_true_eq] at h ⊢
    rcases lt_trichotomy (number values[i].scale) (number values[j].scale) with hij | hij | hij
    · exact .inl (.inl hij)
    · rcases h with h | h
      · exact .inr (.inl (hij ▸ h))
      · have hk : values[j].scale = values[k].scale := (hi hij).symm.trans h.scale_eq
        exact (h.split hk (hn _ (List.getElem_mem _))).imp .inr .inr
    · rcases h with h | h
      · exact .inr (.inl (hij.trans h))
      · rw [h.scale_eq] at hij
        exact .inr (.inl hij)

/-- Answers about the values at two places are right in each of these orders. -/
theorem aheadAt_of_compare {i j : Fin values.length} {before : Bool}
    (h : compare .less values[i] values[j] = .ok before) : aheadAt number values i j = before := by
  have hs := scale_eq_of_compare h
  rw [compare_less_of_scale_eq hs] at h
  have hnumber : ¬ number values[i].scale < number values[j].scale := by rw [hs]; exact lt_irrefl _
  rw [← Except.ok.inj h, aheadAt]
  exact decide_eq_decide.mpr (or_iff_right hnumber)

/-- The scales can be numbered with either of two as the first one. -/
theorem exists_numbers {k l : Scale} (h : k ≠ l) :
    ∃ number number' : Scale → Int, Function.Injective number ∧ Function.Injective number' ∧
      number k < number l ∧ number' l < number' k := by
  let up (k : Scale) : Int := k.ctorIdx
  have hup : Function.Injective up := by
    intro k l h
    cases k <;> cases l <;> first | rfl | exact absurd h (by decide)
  have hdown : Function.Injective fun k => -up k := fun k l h => hup (Int.neg_inj.mp h)
  rcases lt_or_gt_of_ne (hup.ne h) with hlt | hlt
  · exact ⟨up, fun k => -up k, hup, hdown, hlt, Int.neg_lt_neg hlt⟩
  · exact ⟨fun k => -up k, up, hdown, hup, Int.neg_lt_neg hlt, hlt⟩

/-- Where two values cannot be compared, no way to sort comes to an end. -/
theorem exists_fault_of_scale_ne (hs : s.IsStable) (hn : ∀ v ∈ values, v ≠ notANumber) (ha : a ∈ values)
    (hb : b ∈ values) (hk : a.scale ≠ b.scale) : ∃ fault, sortBy s = .error fault := by
  obtain ⟨i, hi, rfl⟩ := List.getElem_of_mem ha
  obtain ⟨j, hj, rfl⟩ := List.getElem_of_mem hb
  obtain ⟨number, number', hinj, hinj', hlt, hlt'⟩ := exists_numbers hk
  obtain ⟨fault, hfault⟩ : ∃ fault, s.run (fun p q => compare .less values[p] values[q]) = .error fault :=
    ComparisonSort.exists_fault_of_reversed (i := ⟨i, hi⟩) (j := ⟨j, hj⟩) hs
      (isWeakOrder_aheadAt hinj hn) (isWeakOrder_aheadAt hinj' hn)
      (fun p q before h => ⟨aheadAt_of_compare h, aheadAt_of_compare h⟩)
      (decide_eq_true (.inl hlt)) (decide_eq_true (.inl hlt'))
  exact ⟨fault, by rw [sortBy, hfault]; rfl⟩

/-- What a way to sort complains of is a comparison of two of the values. -/
theorem exists_of_sortBy {fault : OrderFault} (h : sortBy s = .error fault) :
    ∃ a ∈ values, ∃ b ∈ values, compare .less a b = .error fault := by
  obtain ⟨p, q, hpq⟩ := ComparisonSort.exists_of_run (map_eq_error_iff.mp h)
  exact ⟨_, List.getElem_mem _, _, List.getElem_mem _, hpq⟩

section OneScale

variable (hn : ∀ v ∈ values, v ≠ notANumber) (hk : ∀ a ∈ values, ∀ b ∈ values, a.scale = b.scale)

include hn hk

theorem isWeakOrder_beforeAt : IsWeakOrder (beforeAt values) := by
  constructor
  · intro i j h
    simp only [beforeAt, decide_eq_true_eq, decide_eq_false_iff_not] at h ⊢
    exact h.asymm
  · intro i j k h
    simp only [beforeAt, decide_eq_true_eq] at h ⊢
    exact h.split (hk _ (List.getElem_mem _) _ (List.getElem_mem _)) (hn _ (List.getElem_mem _))

theorem sortBy_of_scale_eq (hs : s.IsStable) :
    ∃ order, sortBy s = .ok (order.map values.get) ∧ Arranges (beforeAt values) order := by
  have hanswered (i j : Fin values.length) :
      compare .less values[i] values[j] = .ok (beforeAt values i j) :=
    compare_less_of_scale_eq (hk _ (List.getElem_mem _) _ (List.getElem_mem _))
  refine ⟨s.outcome (beforeAt values), ?_, hs _ (isWeakOrder_beforeAt hn hk)⟩
  rw [sortBy, ComparisonSort.run_of_answered hanswered]
  rfl

/-- The values as they are arranged by their places. -/
theorem sort_of_scale_eq {order : List (Fin values.length)} (h : Arranges (beforeAt values) order) :
    sort values = .ok (order.map values.get) := by
  have hall : (values.all fun a => values.all fun b => a.scale = b.scale) = true := by
    simpa only [List.all_eq_true, decide_eq_true_eq] using hk
  have hw := isWeakOrder_beforeAt hn hk
  rw [sort, if_pos hall, h.unique hw (arranges_mergeSort hw),
    List.map_mergeSort (s := fun a b => decide (¬ b.Before a)), List.map_get_finRange]
  intro i _ j _
  simp [beforeAt]

end OneScale

theorem all_scale_eq_iff : (values.all fun a => values.all fun b => a.scale = b.scale) = true ↔
    ¬ ∃ a ∈ values, ∃ b ∈ values, a.scale ≠ b.scale := by
  simp

theorem exists_fault_of_sort_iff :
    (∃ fault, sort values = .error fault) ↔ ∃ a ∈ values, ∃ b ∈ values, a.scale ≠ b.scale := by
  rw [sort]
  split
  · rename_i h
    simp [all_scale_eq_iff.mp h]
  · rename_i h
    refine iff_of_true ?_ (not_not.mp (mt all_scale_eq_iff.mpr h))
    split
    · exact ⟨_, rfl⟩
    · exact ⟨_, rfl⟩

theorem sort_eq_offsets_iff : sort values = .error .offsets ↔
    (∃ a ∈ values, ∃ b ∈ values, a.scale ≠ b.scale) ∧ ∀ a ∈ values, ∀ b ∈ values, a.kind = b.kind := by
  rw [sort]
  split
  · rename_i h
    exact iff_of_false nofun fun hs => all_scale_eq_iff.mp h hs.1
  · rename_i h
    rw [and_iff_right (not_not.mp (mt all_scale_eq_iff.mpr h))]
    split
    · rename_i hk
      simpa using hk
    · rename_i hk
      simpa using hk

/-- Sorting comes to an end exactly if all values are on one scale: of one kind, and timestamps all with an
offset or all without. They then come in ascending order, those that are the same as they stood. It is what
every way to sort comes to that asks about two values at a time. For two values on one scale, whatever is asked
follows from how they stand to each other in one total order. Values of different kinds are not ordered and do
not replace each other; for a timestamp with an offset and one without, both questions end in a fault. -/
theorem sorting_needs_one_scale (values : List Value) (hn : ∀ v ∈ values, v ≠ notANumber) :
    ((∃ fault, sort values = .error fault) ↔ ∃ a ∈ values, ∃ b ∈ values, a.scale ≠ b.scale) ∧
    ((∀ a ∈ values, ∀ b ∈ values, a.scale = b.scale) →
      ∃ order, sort values = .ok (order.map values.get) ∧ Arranges (beforeAt values) order) ∧
    (∀ s : ComparisonSort values.length, s.IsStable →
      (sortBy s).toOption = (sort values).toOption ∧
      ∀ fault, sortBy s = .error fault → ∃ a ∈ values, ∃ b ∈ values, compare .less a b = .error fault) ∧
    (∀ a b : Value, a.scale ≠ b.scale ↔
      a.kind ≠ b.kind ∨ ∃ t m, a = timestamp t ∧ b = moment m ∨ a = moment m ∧ b = timestamp t) ∧
    (∀ a b : Value, a.scale = b.scale → a ≠ notANumber → b ≠ notANumber →
      (∀ r, compare r a b = .ok (r.holds (ordering a b))) ∧ (a.Same b ↔ ordering a b = .eq) ∧
      a.supersedes b = compare .less b a ∧ ordering b a = (ordering a b).swap ∧
      ∀ c : Value, b.scale = c.scale → c ≠ notANumber →
        (ordering a b).isLE → (ordering b c).isLE → (ordering a c).isLE) ∧
    (∀ a b : Value, a.kind ≠ b.kind →
      (∀ r, compare r a b = .error (.kinds r)) ∧ ¬ a.Same b ∧ a.supersedes b = .ok false) ∧
    ∀ a b : Value, a.kind = b.kind → a.scale ≠ b.scale →
      (∀ r, compare r a b = .error .offsets) ∧ ¬ a.Same b ∧ a.supersedes b = .error .offsets := by
  refine ⟨exists_fault_of_sort_iff, fun hk => ?_, fun s hs => ⟨?_, fun _ => exists_of_sortBy⟩,
    fun a b => scale_ne_iff, fun a b hk ha hb => ?_, fun a b hk => ?_, fun a b hk hs => ?_⟩
  · obtain ⟨order, _, h⟩ := sortBy_of_scale_eq hn hk (ComparisonSort.isStable_insertion values.length)
    exact ⟨order, sort_of_scale_eq hn hk h, h⟩
  · by_cases hk : ∀ a ∈ values, ∀ b ∈ values, a.scale = b.scale
    · obtain ⟨order, hsort, h⟩ := sortBy_of_scale_eq hn hk hs
      rw [hsort, sort_of_scale_eq hn hk h]
    · simp only [not_forall, exists_prop] at hk
      obtain ⟨fault, hf⟩ := exists_fault_of_sort_iff.mpr hk
      obtain ⟨a, ha, b, hb, hne⟩ := hk
      obtain ⟨fault', hf'⟩ := exists_fault_of_scale_ne hs hn ha hb hne
      rw [hf, hf']
      rfl
  · exact ⟨compare_eq_holds hk ha hb, same_iff_ordering hk ha hb,
      supersedes_of_kind_eq (kind_eq_of_scale_eq hk), ordering_swap hk ha hb,
      fun c hkc hc => isLE_ordering_trans hk ha hb hkc hc⟩
  · exact ⟨compare_of_kind_ne hk, not_same_of_scale_ne (mt kind_eq_of_scale_eq hk), supersedes_of_kind_ne hk⟩
  · refine ⟨compare_of_scale_ne hk hs, not_same_of_scale_ne hs, ?_⟩
    rw [supersedes_of_kind_eq hk, compare_of_scale_ne hk.symm hs.symm]

/-- A text among integers, a number that is held in two ways, and three times with two offsets. -/
theorem sorting_three_values :
    let mixed : List Value := [integer 2, text "a", integer 1]
    let reals : List Value := [real (.binary (.ofQuotient 2 1)), real (.integer 2), real (.integer 1)]
    let moments : List Value :=
      [moment ⟨⟨2021, 1, 2, 12, 0, 0, 0, by decide, by decide, by decide⟩, 7200000000, by decide⟩,
        moment ⟨⟨2021, 1, 2, 11, 0, 0, 0, by decide, by decide, by decide⟩, 0, by decide⟩,
        moment ⟨⟨2021, 1, 2, 10, 0, 0, 0, by decide, by decide, by decide⟩, 0, by decide⟩]
    (∀ v ∈ mixed, v ≠ notANumber) ∧ (∀ v ∈ reals, v ≠ notANumber) ∧ (∀ v ∈ moments, v ≠ notANumber) ∧
      (ComparisonSort.insertion 3).IsStable ∧
      (∃ fault, sort mixed = .error fault) ∧
      sort reals = .ok [real (.integer 1), real (.binary (.ofQuotient 2 1)), real (.integer 2)] ∧
      (∃ order, sort moments = .ok (order.map moments.get) ∧ Arranges (beforeAt moments) order) ∧
      compare .lessOrSame (real (.integer 2)) (real (.binary (.ofQuotient 2 1))) = .ok true ∧
      compare .greater (integer 2) (text "a") = .error (.kinds .greater) := by
  intro mixed reals moments
  have hs := ComparisonSort.isStable_insertion 3
  have hmixed : ∀ v ∈ mixed, v ≠ notANumber := by decide
  have hreals : ∀ v ∈ reals, v ≠ notANumber := by decide +kernel
  have hmoments : ∀ v ∈ moments, v ≠ notANumber := by simp [moments, notANumber]
  obtain ⟨hfault, _, _, _, _, happart, _⟩ := sorting_needs_one_scale mixed hmixed
  obtain ⟨_, _, hways, _, hrelated, _⟩ := sorting_needs_one_scale reals hreals
  refine ⟨hmixed, hreals, hmoments, hs, ?_, ?_, ?_, ?_, (happart _ _ (by decide)).1 _⟩
  · exact hfault.mpr ⟨integer 2, by decide, text "a", by decide, by decide⟩
  · rw [← toOption_eq_some_iff, ← (hways _ hs).1]
    decide +kernel
  · exact (sorting_needs_one_scale moments hmoments).2.1 (by simp [moments, scale])
  · have h := (hrelated (real (.integer 2)) (real (.binary (.ofQuotient 2 1))) rfl (by decide)
      (by decide +kernel)).1 .lessOrSame
    exact h.trans (congrArg Except.ok (by decide +kernel))

/-- Two timestamps, which are of one kind, are neither sorted nor compared if one has an offset. -/
theorem one_kind_is_not_sorted :
    let plain := timestamp ⟨2021, 1, 2, 0, 0, 0, 0, by decide, by decide, by decide⟩
    let shifted := moment ⟨⟨2021, 1, 2, 0, 0, 0, 0, by decide, by decide, by decide⟩, 0, by decide⟩
    plain.kind = shifted.kind ∧ sort [plain, shifted] = .error .offsets ∧
      (∀ r, compare r plain shifted = .error .offsets) ∧ plain.supersedes shifted = .error .offsets := by
  intro plain shifted
  have hkind : plain.kind = shifted.kind := rfl
  have hscale : plain.scale ≠ shifted.scale := by decide
  have hsupersedes : plain.supersedes shifted = .error .offsets := by
    rw [supersedes_of_kind_eq hkind, compare_of_scale_ne hkind.symm hscale.symm]
  refine ⟨hkind, sort_eq_offsets_iff.mpr ⟨?_, ?_⟩, compare_of_scale_ne hkind hscale, hsupersedes⟩
  · exact ⟨plain, by simp, shifted, by simp, hscale⟩
  · simp [plain, shifted, kind]

end Value

end PhotoNaming
