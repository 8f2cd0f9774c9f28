import PhotoNaming.Proofs.Tag.Reporting
import Mathlib.Data.List.Nodup

/-! Tags in groups. They are sorted by the lines that they are reported as, one after the other, so that
another report of one tag changes its own line and no other. -/
namespace PhotoNaming.TagGroup

/-- The line of a tag: the name of its group, its own name, and what is reported of it. -/
structure Line where
  group : Text
  name : Text
  text : Text

/-- The lines of tags that can all be reported. A key without a space has none. -/
inductive Lines : List (Text × Tag) → List Line → Prop
  | nil : Lines [] []
  | skip {key : Text} {tag : Tag} {tags : List (Text × Tag)} {lines : List Line}
      (hk : Text.cutAt? ' ' key = none) (rest : Lines tags lines) : Lines ((key, tag) :: tags) lines
  | line {key group name text : Text} {tag : Tag} {tags : List (Text × Tag)} {lines : List Line}
      (hk : Text.cutAt? ' ' key = some (group, name)) (hr : (tag.report name).result = .ok text)
      (rest : Lines tags lines) : Lines ((key, tag) :: tags) (⟨group, name, text⟩ :: lines)

/-- Puts a line in its group. -/
def put (groups : List TagGroup) (l : Line) : List TagGroup := added groups l.group l.name l.text

/-- A group with the line behind its tags, if it is the line's group. -/
def Line.appended (l : Line) (g : TagGroup) : TagGroup :=
  if g.name = l.group then { g with tags := g.tags ++ [(l.name, l.text)] } else g

/-- Groups that are the same but for what is said of one tag. -/
def Apart (group name a b : Text) (groups others : List TagGroup) : Prop :=
  ∃ before earlier later after,
    groups = before ++ ⟨group, earlier ++ (name, a) :: later⟩ :: after ∧
      others = before ++ ⟨group, earlier ++ (name, b) :: later⟩ :: after

variable {tags front back : List (Text × Tag)} {lines others : List Line}
  {groups found : List TagGroup} {key group name a b : Text} {tag tag' : Tag} {l : Line}

theorem lines_cons_iff_of_none (hk : Text.cutAt? ' ' key = none) :
    Lines ((key, tag) :: tags) lines ↔ Lines tags lines := by
  constructor
  · intro h
    cases h with
    | skip _ h => exact h
    | line hk' => rw [hk] at hk'; cases hk'
  · exact .skip hk

theorem lines_cons_iff_of_some (hk : Text.cutAt? ' ' key = some (group, name)) :
    Lines ((key, tag) :: tags) lines ↔
      ∃ text rest, (tag.report name).result = .ok text ∧ Lines tags rest ∧
        lines = ⟨group, name, text⟩ :: rest := by
  constructor
  · intro h
    cases h with
    | skip hk' => rw [hk] at hk'; cases hk'
    | line hk' hr h =>
      rw [hk] at hk'
      cases hk'
      exact ⟨_, _, hr, h, rfl⟩
  · rintro ⟨text, rest, hr, h, rfl⟩
    exact .line hk hr h

/-- Groups are made of the lines of the tags. -/
theorem result_ofTagsBehind_eq_ok_iff :
    (ofTagsBehind groups tags).result = .ok found ↔
      ∃ lines, Lines tags lines ∧ lines.foldl put groups = found := by
  induction tags generalizing groups with
  | nil =>
    constructor
    · intro h
      exact ⟨[], .nil, Except.ok.inj h⟩
    · rintro ⟨lines, h, rfl⟩
      cases h
      rfl
  | cons entry tags ih =>
    obtain ⟨key, tag⟩ := entry
    rw [ofTagsBehind]
    split
    · rename_i hk
      simp only [ih, lines_cons_iff_of_none hk]
    · rename_i group name hk
      simp only [Logged.result_bind_eq_ok_iff, ih, lines_cons_iff_of_some hk]
      constructor
      · rintro ⟨text, hr, lines, h, hf⟩
        exact ⟨_, ⟨text, lines, hr, h, rfl⟩, hf⟩
      · rintro ⟨_, ⟨text, lines, hr, h, rfl⟩, hf⟩
        exact ⟨text, hr, lines, h, hf⟩

/-- Tags have at most one list of lines. -/
theorem Lines.unique (h : Lines tags lines) (h' : Lines tags others) : lines = others := by
  induction h generalizing others with
  | nil => cases h'; rfl
  | skip hk _ ih => exact ih ((lines_cons_iff_of_none hk).mp h')
  | line hk hr _ ih =>
    obtain ⟨text, rest, hr', hrest, rfl⟩ := (lines_cons_iff_of_some hk).mp h'
    rw [hr] at hr'
    rw [ih hrest, Except.ok.inj hr']

theorem Lines.exists_append (h : Lines (front ++ back) lines) :
    ∃ first last, lines = first ++ last ∧ Lines front first ∧ Lines back last := by
  induction front generalizing lines with
  | nil => exact ⟨[], lines, rfl, .nil, h⟩
  | cons entry front ih =>
    cases h with
    | skip hk h =>
      obtain ⟨first, last, rfl, hf, hb⟩ := ih h
      exact ⟨first, last, rfl, .skip hk hf, hb⟩
    | line hk hr h =>
      obtain ⟨first, last, rfl, hf, hb⟩ := ih h
      exact ⟨_ :: first, last, rfl, .line hk hr hf, hb⟩

/-- All tags can be reported unless one is out of range. -/
theorem exists_lines_iff :
    (∃ lines, Lines tags lines) ↔
      ∀ e ∈ tags, ∀ group name, Text.cutAt? ' ' e.1 = some (group, name) → ¬ e.2.IsTooLarge name := by
  induction tags with
  | nil => exact ⟨by simp, fun _ => ⟨[], .nil⟩⟩
  | cons entry tags ih =>
    obtain ⟨key, tag⟩ := entry
    rw [List.forall_mem_cons, ← ih]
    cases hk : Text.cutAt? ' ' key with
    | none => simp only [lines_cons_iff_of_none hk, reduceCtorEq, false_implies, implies_true, true_and]
    | some cut =>
      obtain ⟨group, name⟩ := cut
      constructor
      · rintro ⟨lines, h⟩
        obtain ⟨text, rest, hr, hrest, _⟩ := (lines_cons_iff_of_some hk).mp h
        refine ⟨?_, rest, hrest⟩
        rintro _ _ ⟨⟩
        exact Tag.exists_report_iff.mp ⟨text, hr⟩
      · rintro ⟨hno, rest, hrest⟩
        obtain ⟨text, hr⟩ := Tag.exists_report_iff.mpr (hno group name rfl)
        exact ⟨_, .line hk hr hrest⟩

theorem put_of_mem (h : l.group ∈ groups.map (·.name)) : put groups l = groups.map l.appended := by
  have hany : groups.any (·.name = l.group) = true := by simpa using h
  rw [put, added, if_pos hany]
  rfl

theorem put_of_notMem (h : l.group ∉ groups.map (·.name)) :
    put groups l = groups ++ [⟨l.group, [(l.name, l.text)]⟩] := by
  have hany : ¬ groups.any (·.name = l.group) = true := by simpa using h
  rw [put, added, if_neg hany]

theorem name_appended (l : Line) (g : TagGroup) : (l.appended g).name = g.name := by
  unfold Line.appended
  split <;> rfl

/-- No two groups have one name. -/
theorem nodup_put (h : (groups.map (·.name)).Nodup) (l : Line) : ((put groups l).map (·.name)).Nodup := by
  by_cases hm : l.group ∈ groups.map (·.name)
  · rw [put_of_mem hm, List.map_map]
    simpa [Function.comp_def, name_appended] using h
  · rw [put_of_notMem hm, List.map_append]
    exact h.append (List.nodup_singleton _) (by simpa using hm)

theorem nodup_foldl_put (lines : List Line) (h : (groups.map (·.name)).Nodup) :
    ((lines.foldl put groups).map (·.name)).Nodup := by
  induction lines generalizing groups with
  | nil => exact h
  | cons l lines ih => exact ih (nodup_put h l)

/-- Whatever is reported of a tag comes in one place. -/
theorem exists_put_eq (h : (groups.map (·.name)).Nodup) (group name : Text) :
    ∃ before tags after, ∀ text,
      put groups ⟨group, name, text⟩ = before ++ ⟨group, tags ++ [(name, text)]⟩ :: after := by
  by_cases hm : group ∈ groups.map (·.name)
  · obtain ⟨g, hg, rfl⟩ := List.mem_map.mp hm
    obtain ⟨before, after, rfl⟩ := List.append_of_mem hg
    refine ⟨before, g.tags, after, fun text => ?_⟩
    have hother : g.name ∉ (before ++ after).map (·.name) := by
      rw [List.map_append, List.map_cons, List.nodup_middle, ← List.map_append] at h
      exact (List.nodup_cons.mp h).1
    have kept {others : List TagGroup} (ho : others ⊆ before ++ after) :
        others.map (Line.appended ⟨g.name, name, text⟩) = others := by
      refine (List.map_congr_left fun other hm => ?_).trans (List.map_id others)
      have hne : other.name ≠ g.name := fun he => hother (he ▸ List.mem_map_of_mem (ho hm))
      exact if_neg hne
    rw [put_of_mem hm, List.map_append, List.map_cons, kept (List.subset_append_left _ _),
      kept (List.subset_append_right _ _), Line.appended, if_pos rfl]
  · exact ⟨groups, [], [], fun text => put_of_notMem hm⟩

/-- Two reports of one tag. -/
theorem apart_put (h : (groups.map (·.name)).Nodup) (group name a b : Text) :
    Apart group name a b (put groups ⟨group, name, a⟩) (put groups ⟨group, name, b⟩) := by
  obtain ⟨before, earlier, after, hput⟩ := exists_put_eq h group name
  exact ⟨before, earlier, [], after, hput a, hput b⟩

theorem Apart.put {groups others : List TagGroup} (h : Apart group name a b groups others) (l : Line) :
    Apart group name a b (TagGroup.put groups l) (TagGroup.put others l) := by
  obtain ⟨before, earlier, later, after, rfl, rfl⟩ := h
  by_cases hm : l.group ∈ (before ++ ⟨group, earlier ++ (name, a) :: later⟩ :: after).map (·.name)
  · have hm' : l.group ∈ (before ++ ⟨group, earlier ++ (name, b) :: later⟩ :: after).map (·.name) := by
      simpa using hm
    rw [put_of_mem hm, put_of_mem hm', List.map_append, List.map_append, List.map_cons, List.map_cons]
    by_cases hg : group = l.group
    · refine ⟨before.map l.appended, earlier, later ++ [(l.name, l.text)], after.map l.appended, ?_, ?_⟩
      · simp [Line.appended, hg]
      · simp [Line.appended, hg]
    · refine ⟨before.map l.appended, earlier, later, after.map l.appended, ?_, ?_⟩
      · simp [Line.appended, hg]
      · simp [Line.appended, hg]
  · have hm' : l.group ∉ (before ++ ⟨group, earlier ++ (name, b) :: later⟩ :: after).map (·.name) := by
      simpa using hm
    rw [put_of_notMem hm, put_of_notMem hm']
    exact ⟨before, earlier, later, after ++ [⟨l.group, [(l.name, l.text)]⟩], by simp, by simp⟩

theorem Apart.foldl_put {groups others : List TagGroup} (h : Apart group name a b groups others)
    (lines : List Line) :
    Apart group name a b (lines.foldl TagGroup.put groups) (lines.foldl TagGroup.put others) := by
  induction lines generalizing groups others with
  | nil => exact h
  | cons l lines ih => exact ih (h.put l)

/-- Two reports of tags that differ in the first one. -/
theorem apart_of_lines (hn : (groups.map (·.name)).Nodup)
    (h : Lines ((key, tag) :: tags) lines) (h' : Lines ((key, tag') :: tags) others) :
    (Text.cutAt? ' ' key = none ∧ lines.foldl put groups = others.foldl put groups) ∨
      ∃ group name a b, Text.cutAt? ' ' key = some (group, name) ∧
        (tag.report name).result = .ok a ∧ (tag'.report name).result = .ok b ∧
        Apart group name a b (lines.foldl put groups) (others.foldl put groups) := by
  cases hk : Text.cutAt? ' ' key with
  | none =>
    have heq := ((lines_cons_iff_of_none hk).mp h).unique ((lines_cons_iff_of_none hk).mp h')
    exact .inl ⟨rfl, by rw [heq]⟩
  | some cut =>
    obtain ⟨a, rest, hr, hrest, rfl⟩ := (lines_cons_iff_of_some hk).mp h
    obtain ⟨b, rest', hr', hrest', rfl⟩ := (lines_cons_iff_of_some hk).mp h'
    obtain rfl := hrest.unique hrest'
    exact .inr ⟨_, _, a, b, rfl, hr, hr', (apart_put hn _ _ _ _).foldl_put rest⟩

/-- The tags of a list are reported if no number is out of range. Another tag at one key changes at most the text
that is reported of it. -/
theorem tags_are_isolated (tags : List (Text × Tag)) :
    ((∃ groups, (ofTags tags).result = .ok groups) ↔
        ∀ e ∈ tags, ∀ group name, Text.cutAt? ' ' e.1 = some (group, name) →
          ¬ e.2.IsTooLarge name) ∧
      ∀ front back key tag tag' groups others, tags = front ++ (key, tag) :: back →
        (ofTags tags).result = .ok groups →
        (ofTags (front ++ (key, tag') :: back)).result = .ok others →
        (Text.cutAt? ' ' key = none ∧ groups = others) ∨
          ∃ group name a b, Text.cutAt? ' ' key = some (group, name) ∧
            (tag.report name).result = .ok a ∧ (tag'.report name).result = .ok b ∧
            Apart group name a b groups others := by
  constructor
  · rw [← exists_lines_iff]
    constructor
    · rintro ⟨groups, h⟩
      obtain ⟨lines, hl, _⟩ := result_ofTagsBehind_eq_ok_iff.mp h
      exact ⟨lines, hl⟩
    · rintro ⟨lines, hl⟩
      exact ⟨_, result_ofTagsBehind_eq_ok_iff.mpr ⟨lines, hl, rfl⟩⟩
  · rintro front back key tag tag' groups others rfl h h'
    obtain ⟨lines, hl, rfl⟩ := result_ofTagsBehind_eq_ok_iff.mp h
    obtain ⟨lines', hl', rfl⟩ := result_ofTagsBehind_eq_ok_iff.mp h'
    obtain ⟨first, last, rfl, hf, hb⟩ := hl.exists_append
    obtain ⟨first', last', rfl, hf', hb'⟩ := hl'.exists_append
    obtain rfl := hf.unique hf'
    rw [List.foldl_append, List.foldl_append]
    exact apart_of_lines (nodup_foldl_put first List.nodup_nil) hb hb'

theorem bad_number_is_isolated :
    let plain (t : Text) : Tag := { printed := t, values := none }
    let five : Tag := { printed := ['5'], values := some .nothing }
    (ofTags [("EXIF FNumber".toList, plain ['8']), ("EXIF ISO".toList, plain "100")]).result =
        .ok [⟨"EXIF".toList, [("FNumber".toList, ['8']), ("ISO".toList, "100".toList)]⟩] ∧
      (ofTags [("EXIF FNumber".toList, five),
          ("EXIF ISO".toList, plain "100")]).result =
        .ok [⟨"EXIF".toList, [("FNumber".toList, ['5']), ("ISO".toList, "100".toList)]⟩] ∧
      Apart "EXIF".toList "FNumber".toList ['8'] ['5']
        [⟨"EXIF".toList, [("FNumber".toList, ['8']), ("ISO".toList, "100".toList)]⟩]
        [⟨"EXIF".toList, [("FNumber".toList, ['5']), ("ISO".toList, "100".toList)]⟩] := by
  intro plain five
  have h : (ofTags ([] ++ ("EXIF FNumber".toList, plain ['8']) ::
      [("EXIF ISO".toList, plain "100")])).result =
    .ok [⟨"EXIF".toList, [("FNumber".toList, ['8']), ("ISO".toList, "100".toList)]⟩] := by
    decide +kernel
  have h' : (ofTags ([] ++ ("EXIF FNumber".toList, five) ::
      [("EXIF ISO".toList, plain "100")])).result =
    .ok [⟨"EXIF".toList, [("FNumber".toList, ['5']), ("ISO".toList, "100".toList)]⟩] := by
    decide +kernel
  have hcut : Text.cutAt? ' ' "EXIF FNumber".toList = some ("EXIF".toList, "FNumber".toList) := by decide
  have ha : (Tag.report "FNumber".toList (plain ['8'])).result = .ok ['8'] := by decide +kernel
  have hb : (Tag.report "FNumber".toList five).result = .ok ['5'] := by
    decide +kernel
  refine ⟨h, h', ?_⟩
  obtain ⟨hk, _⟩ | ⟨group, name, a, b, hk, hra, hrb, hapart⟩ :=
    (tags_are_isolated _).2 _ _ _ _ _ _ _ rfl h h'
  · rw [hcut] at hk
    cases hk
  · rw [hcut] at hk
    cases hk
    rw [ha] at hra
    rw [hb] at hrb
    cases hra
    cases hrb
    exact hapart

/-- An f-number out of range leaves no tag reported at all. -/
theorem large_number_is_not_isolated :
    let huge : Tag :=
      { printed := "28/10", values := some (.items [.scalar (.number (.integer (10 ^ 400)))]) }
    (ofTags [("Image Make".toList, { printed := "SONY", values := none }), ("EXIF FNumber".toList, huge)]).result =
      .error .tooLarge := by
  decide +kernel

end PhotoNaming.TagGroup
