import PhotoNaming.Proofs.Catalog.Standard
import Mathlib.Data.List.Lex

/-! Making catalogs, and what is found in them. Codes and display names are never shared, and a display
name is found before all other names, whichever property stands first. -/
namespace PhotoNaming.Catalog

/-- Properties that make a catalog: their codes have two characters, and no two share a code or a display
name. -/
structure IsSound (descriptors : List Descriptor) : Prop where
  codeLength : ∀ d ∈ descriptors, d.code.length = 2
  codes : (descriptors.map (·.code)).Nodup
  names : (descriptors.map (·.name)).Nodup

/-- What is wrong with a property behind others: its code's length, or else its code, or else its display
name. -/
inductive Offends (earlier : List Descriptor) (d : Descriptor) : CatalogFault → Prop
  | codeLength (h : d.code.length ≠ 2) : Offends earlier d (.codeLength d.code)
  | repeatedCode (hl : d.code.length = 2) (h : d.code ∈ earlier.map (·.code)) :
    Offends earlier d (.repeatedCode d.code)
  | repeatedName (hl : d.code.length = 2) (hc : d.code ∉ earlier.map (·.code))
      (h : d.name ∈ earlier.map (·.name)) : Offends earlier d (.repeatedName d.name)

/-- The property that a name is for: the one that is displayed under it, or the first one that is also
reported under it. -/
def IsNamed (descriptors : List Descriptor) (name : Text) (d : Descriptor) : Prop :=
  d ∈ descriptors ∧ d.name = name ∨
    name ∉ descriptors.map (·.name) ∧ ∃ front back, descriptors = front ++ d :: back ∧ name ∈ d.aliases ∧
      ∀ e ∈ front, name ∉ e.aliases

/-- Properties under keys. -/
abbrev Table := List (Text × Descriptor)

namespace Table

/-- The properties under one of their fields. -/
def ofField (field : Descriptor → Text) (descriptors : List Descriptor) : Table :=
  descriptors.map fun d => (field d, d)

/-- Enters a property unless the key is taken. -/
def entered (table : Table) (key : Text) (d : Descriptor) : Table :=
  if (table.lookup key).isSome then table else table ++ [(key, d)]

/-- Enters all other names of a property, less those that are displayed. -/
def withAliases (displayed : List Text) (table : Table) (d : Descriptor) : Table :=
  d.aliases.foldl (fun table name => if displayed.contains name then table else table.entered name d) table

end Table

/-- The tables in which properties can be looked up. -/
structure Index where
  codes : Table
  names : Table
  aliases : Table

namespace Index

/-- The tables of a catalog. That of the codes is sorted by them; the others are made before, in the order of
the properties. -/
def ofCatalog (c : Catalog) : Index where
  codes := .ofField (·.code) c.byAscendingCode
  names := .ofField (·.name) c.descriptors
  aliases := c.descriptors.foldl (Table.withAliases (c.descriptors.map (·.name))) []

def byCode? (index : Index) (code : Text) : Option Descriptor := index.codes.lookup code

def byName? (index : Index) (name : Text) : Option Descriptor :=
  (index.names.lookup name).or (index.aliases.lookup name)

end Index

variable {earlier descriptors front back : List Descriptor} {d : Descriptor} {fault : CatalogFault}
  {code name key : Text} {c : Catalog}

theorem isSound_nil : IsSound [] := ⟨nofun, List.nodup_nil, List.nodup_nil⟩

theorem isSound_concat_iff :
    IsSound (earlier ++ [d]) ↔ IsSound earlier ∧ d.code.length = 2 ∧ d.code ∉ earlier.map (·.code) ∧
      d.name ∉ earlier.map (·.name) := by
  constructor
  · rintro ⟨hl, hc, hn⟩
    rw [List.map_append, List.map_singleton, ← List.concat_eq_append, List.nodup_concat] at hc hn
    exact ⟨⟨fun e he => hl e (List.mem_append_left _ he), hc.2, hn.2⟩, hl d (by simp), hc.1, hn.1⟩
  · rintro ⟨⟨hl, hc, hn⟩, hld, hcd, hnd⟩
    refine ⟨?_, ?_, ?_⟩
    · simpa [or_imp, forall_and] using ⟨hl, hld⟩
    · rw [List.map_append, List.map_singleton, ← List.concat_eq_append, List.nodup_concat]
      exact ⟨hcd, hc⟩
    · rw [List.map_append, List.map_singleton, ← List.concat_eq_append, List.nodup_concat]
      exact ⟨hnd, hn⟩

theorem IsSound.of_append (h : IsSound (front ++ back)) : IsSound front :=
  ⟨fun e he => h.codeLength e (List.mem_append_left _ he),
    h.codes.sublist ((List.sublist_append_left _ _).map _),
    h.names.sublist ((List.sublist_append_left _ _).map _)⟩

theorem faultBehind?_eq_some_iff : faultBehind? earlier d = some fault ↔ Offends earlier d fault := by
  rw [faultBehind?]
  constructor
  · intro h
    split at h
    · cases h
      exact .codeLength ‹_›
    · rename_i hl
      split at h
      · rename_i hc
        cases h
        exact .repeatedCode (not_not.mp hl) (by simpa using hc)
      · rename_i hc
        split at h
        · rename_i hn
          cases h
          exact .repeatedName (not_not.mp hl) (by simpa using hc) (by simpa using hn)
        · cases h
  · intro h
    cases h with
    | codeLength hl => rw [if_pos hl]
    | repeatedCode hl hc => rw [if_neg (not_not.mpr hl), if_pos (by simpa using hc)]
    | repeatedName hl hc hn =>
      rw [if_neg (not_not.mpr hl), if_neg (by simpa using hc), if_pos (by simpa using hn)]

theorem faultBehind?_eq_none_iff (h : IsSound earlier) :
    faultBehind? earlier d = none ↔ IsSound (earlier ++ [d]) := by
  rw [isSound_concat_iff, and_iff_right h, faultBehind?]
  by_cases hl : d.code.length = 2
  · by_cases hc : d.code ∈ earlier.map (·.code)
    · rw [if_neg (not_not.mpr hl), if_pos (by simpa using hc)]
      simp [hc]
    · rw [if_neg (not_not.mpr hl), if_neg (by simpa using hc), and_iff_right hl, and_iff_right hc]
      simp
  · rw [if_pos hl]
    simp [hl]

theorem firstFault?_eq_none_iff (h : IsSound earlier) :
    firstFault? earlier descriptors = none ↔ IsSound (earlier ++ descriptors) := by
  induction descriptors generalizing earlier with
  | nil => simpa [firstFault?] using h
  | cons d descriptors ih =>
    rw [firstFault?, Option.or_eq_none_iff, faultBehind?_eq_none_iff h,
      List.append_cons earlier d descriptors]
    constructor
    · rintro ⟨hd, hrest⟩
      exact (ih hd).mp hrest
    · intro hall
      exact ⟨hall.of_append, (ih hall.of_append).mpr hall⟩

theorem firstFault?_eq_some_iff (h : IsSound earlier) :
    firstFault? earlier descriptors = some fault ↔
      ∃ front d back, descriptors = front ++ d :: back ∧ IsSound (earlier ++ front) ∧
        Offends (earlier ++ front) d fault := by
  induction descriptors generalizing earlier with
  | nil => simp [firstFault?]
  | cons d descriptors ih =>
    rw [firstFault?, Option.or_eq_some_iff, faultBehind?_eq_some_iff, faultBehind?_eq_none_iff h]
    constructor
    · rintro (hd | ⟨hd, hrest⟩)
      · exact ⟨[], d, descriptors, rfl, by simpa using h, by simpa using hd⟩
      · obtain ⟨front, e, back, rfl, hf, he⟩ := (ih hd).mp hrest
        exact ⟨d :: front, e, back, rfl, by rwa [List.append_cons], by rwa [List.append_cons]⟩
    · rintro ⟨front, e, back, heq, hf, he⟩
      cases front with
      | nil =>
        obtain ⟨rfl, rfl⟩ := List.cons.inj heq
        exact .inl (by simpa using he)
      | cons first front =>
        obtain ⟨rfl, rfl⟩ := List.cons.inj heq
        rw [List.append_cons] at hf he
        exact .inr ⟨hf.of_append, (ih hf.of_append).mpr ⟨front, e, back, rfl, hf, he⟩⟩

theorem ofDescriptors_eq_error_iff {excluded : List Text} :
    ofDescriptors descriptors excluded = .error fault ↔
      ∃ front d back, descriptors = front ++ d :: back ∧ IsSound front ∧ Offends front d fault := by
  have h : firstFault? [] descriptors = some fault ↔ _ := firstFault?_eq_some_iff isSound_nil
  simp only [List.nil_append] at h
  rw [ofDescriptors, ← h]
  split <;> simp [*]

theorem ofDescriptors_eq_ok_iff {excluded : List Text} :
    ofDescriptors descriptors excluded = .ok c ↔ IsSound descriptors ∧ c = ⟨descriptors, excluded⟩ := by
  have h : firstFault? [] descriptors = none ↔ _ := firstFault?_eq_none_iff isSound_nil
  rw [List.nil_append] at h
  rw [ofDescriptors, ← h]
  split <;> simp [*, eq_comm]

/-- Properties come in ascending order of their codes. -/
theorem pairwise_byAscendingCode (h : IsSound c.descriptors) :
    c.byAscendingCode.Pairwise fun a b => a.code < b.code := by
  have hle : c.byAscendingCode.Pairwise fun a b => decide (¬ b.code < a.code) = true :=
    List.pairwise_mergeSort (fun a b c => by simp only [decide_eq_true_eq]; grind)
      (fun a b => by simp only [Bool.or_eq_true, decide_eq_true_eq]; grind) _
  have hperm : c.byAscendingCode.Perm c.descriptors := List.mergeSort_perm _ _
  have hne : c.byAscendingCode.Pairwise fun a b => a.code ≠ b.code :=
    List.pairwise_map.mp ((hperm.map Descriptor.code).nodup_iff.mpr h.codes)
  exact hle.imp₂ (fun a b hle hne => by simp only [decide_eq_true_eq] at hle; grind) hne

theorem byName?_eq_some_iff (h : IsSound c.descriptors) :
    c.byName? name = some d ↔ IsNamed c.descriptors name d := by
  have hnone : c.descriptors.find? (·.name = name) = none ↔ name ∉ c.descriptors.map (·.name) := by
    simp
  rw [byName?, Option.or_eq_some_iff, find?_eq_some_iff_of_nodup h.names, hnone, IsNamed,
    List.find?_eq_some_iff_append]
  simp [and_left_comm]

theorem byName?_eq_none_iff :
    c.byName? name = none ↔ ∀ d ∈ c.descriptors, d.name ≠ name ∧ name ∉ d.aliases := by
  simp [byName?, forall_and]

namespace Table

variable {table : Table} {displayed : List Text}

theorem lookup_ofField (field : Descriptor → Text) (descriptors : List Descriptor) :
    (ofField field descriptors).lookup key = descriptors.find? (field · = key) := by
  induction descriptors with
  | nil => rfl
  | cons d descriptors ih =>
    rw [ofField, List.map_cons, List.lookup_cons, List.find?_cons, ← ofField, ih]
    by_cases h : field d = key
    · simp [h]
    · have hne : (key == field d) = false := by simpa using Ne.symm h
      simp [h, hne]

theorem lookup_entered : (table.entered key d).lookup name =
    (table.lookup name).or (if name = key then some d else none) := by
  rw [entered]
  by_cases h : name = key
  · subst h
    cases ht : table.lookup name with
    | none => simp [List.lookup_append, ht]
    | some e => simp [ht]
  · have hne : (name == key) = false := by simpa using h
    rw [if_neg h, Option.or_none]
    split
    · rfl
    · simp [List.lookup_append, List.lookup_cons, hne]

theorem lookup_withAliases : (table.withAliases displayed d).lookup name =
    (table.lookup name).or (if name ∉ displayed ∧ name ∈ d.aliases then some d else none) := by
  have run (names : List Text) (table : Table) :
      (names.foldl (fun table name => if displayed.contains name then table else table.entered name d)
        table).lookup name =
        (table.lookup name).or (if name ∉ displayed ∧ name ∈ names then some d else none) := by
    induction names generalizing table with
    | nil => simp
    | cons other names ih =>
      rw [List.foldl_cons, ih]
      by_cases ho : other ∈ displayed
      · rw [if_pos (List.contains_iff_mem.mpr ho)]
        by_cases he : name = other
        · simp [he, ho]
        · simp [he]
      · rw [if_neg (mt List.contains_iff_mem.mp ho), lookup_entered, Option.or_assoc]
        by_cases he : name = other
        · simp [he, ho]
        · simp [he]
  exact run d.aliases table

/-- Of all properties the first one with a name is entered under it. -/
theorem lookup_foldl_withAliases (descriptors : List Descriptor) :
    (descriptors.foldl (withAliases displayed) table).lookup name =
      (table.lookup name).or
        (if name ∈ displayed then none else descriptors.find? (·.aliases.contains name)) := by
  induction descriptors generalizing table with
  | nil => simp
  | cons d descriptors ih =>
    rw [List.foldl_cons, ih, lookup_withAliases, Option.or_assoc]
    congr 1
    by_cases hm : name ∈ displayed
    · simp [hm]
    · by_cases ha : name ∈ d.aliases
      · simp [hm, ha]
      · simp [hm, ha]

end Table

namespace Index

/-- In the sorted table the same is found. -/
theorem byCode?_ofCatalog (h : IsSound c.descriptors) : (ofCatalog c).byCode? code = c.byCode? code := by
  have hperm : c.byAscendingCode.Perm c.descriptors := List.mergeSort_perm _ _
  refine Option.ext fun d => ?_
  rw [byCode?, ofCatalog, Table.lookup_ofField, Catalog.byCode?, find?_eq_some_iff_of_nodup h.codes,
    find?_eq_some_iff_of_nodup ((hperm.map Descriptor.code).nodup_iff.mpr h.codes), hperm.mem_iff]

theorem byName?_ofCatalog : (ofCatalog c).byName? name = c.byName? name := by
  rw [byName?, ofCatalog, Table.lookup_ofField, Table.lookup_foldl_withAliases, List.lookup_nil,
    Option.none_or, Catalog.byName?]
  by_cases hm : name ∈ c.descriptors.map (·.name)
  · obtain ⟨d, hd, hname⟩ := List.mem_map.mp hm
    have hsome : (c.descriptors.find? (·.name = name)).isSome := by
      rw [List.find?_isSome]
      exact ⟨d, hd, by simpa using hname⟩
    obtain ⟨e, he⟩ := Option.isSome_iff_exists.mp hsome
    simp [he]
  · rw [if_neg hm]

end Index

/-- Properties make a catalog if their codes are of two characters and no two share a code or a display
name; if not, the first one that offends is reported. The catalog lists them by ascending code, finds each by
its code, and finds under a name the property that is displayed under it, or else the first one in the order
given that is also reported under it. All this can be looked up in tables. -/
theorem catalogs_are_exact (descriptors : List Descriptor) (excluded : List Text) :
    ((∃ c, ofDescriptors descriptors excluded = .ok c) ↔ IsSound descriptors) ∧
    (∀ fault, ofDescriptors descriptors excluded = .error fault ↔
      ∃ front d back, descriptors = front ++ d :: back ∧ IsSound front ∧ Offends front d fault) ∧
    ∀ c, ofDescriptors descriptors excluded = .ok c →
      c.byAscendingCode.Perm descriptors ∧ (c.byAscendingCode.Pairwise fun a b => a.code < b.code) ∧
      (∀ code d, c.byCode? code = some d ↔ d ∈ descriptors ∧ d.code = code) ∧
      (∀ code, c.contains code ↔ code ∈ descriptors.map (·.code)) ∧
      (∀ name d, c.byName? name = some d ↔ IsNamed descriptors name d) ∧
      (∀ name, c.byName? name = none ↔ ∀ d ∈ descriptors, d.name ≠ name ∧ name ∉ d.aliases) ∧
      (∀ code, (Index.ofCatalog c).byCode? code = c.byCode? code) ∧
      ∀ name, (Index.ofCatalog c).byName? name = c.byName? name := by
  refine ⟨?_, fun fault => ofDescriptors_eq_error_iff, fun c hc => ?_⟩
  · simp [ofDescriptors_eq_ok_iff]
  · obtain ⟨h, rfl⟩ := ofDescriptors_eq_ok_iff.mp hc
    exact ⟨List.mergeSort_perm _ _, pairwise_byAscendingCode h,
      fun code d => find?_eq_some_iff_of_nodup h.codes, fun code => by simp [contains, byCode?],
      fun name d => byName?_eq_some_iff h, fun name => byName?_eq_none_iff,
      fun code => Index.byCode?_ofCatalog h, fun name => Index.byName?_ofCatalog⟩

/-- Another name of the first property is the display name of the second one, and both share a third name;
the second one comes first by its code. -/
theorem shared_names_are_found :
    let beta : Descriptor := ⟨"bb", "Beta", .text, ["Alpha", "Xi"]⟩
    let alpha : Descriptor := ⟨"aa", "Alpha", .text, ["Xi", "Beta"]⟩
    let c : Catalog := ⟨[beta, alpha], []⟩
    ofDescriptors [beta, alpha] [] = .ok c ∧ (c.byAscendingCode.Pairwise fun a b => a.code < b.code) ∧
      c.byName? "Alpha" = some alpha ∧ c.byName? "Xi" = some beta ∧
      (Index.ofCatalog c).byName? "Xi" = some beta := by
  intro beta alpha c
  have h : ofDescriptors [beta, alpha] [] = .ok c := rfl
  obtain ⟨_, hcodes, _, _, hnames, _, _, hindex⟩ := (catalogs_are_exact [beta, alpha] []).2.2 c h
  have hxi : c.byName? "Xi" = some beta :=
    (hnames _ _).mpr (.inr ⟨by decide, [], [alpha], rfl, by decide, nofun⟩)
  exact ⟨h, hcodes, (hnames _ _).mpr (.inl ⟨by decide, rfl⟩), hxi, (hindex _).trans hxi⟩

end PhotoNaming.Catalog
