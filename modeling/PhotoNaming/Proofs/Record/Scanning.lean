import PhotoNaming.Proofs.Record.Choice
import PhotoNaming.Proofs.Catalog.Report

/-! The tags that count for a record, and what they offer to it. A record that is gathered from tags holds
for each code what the offers for that code leave. -/
namespace PhotoNaming.Record

/-- The tags that are looked at, in order, each with its name and its reported text. -/
def scanned (groups : List TagGroup) : List (Text × Text) :=
  (groups.filter (!·.isThumbnail)).flatMap (·.tags)

/-- The property that a tag offers: its name is in the catalog, and its text can be read. A text that can be
read and not be written offers nothing, but it also leaves no record to offer it to. -/
def offered? (catalog : Catalog) (tag : Text × Text) : Option Property :=
  (catalog.byName? tag.1).bind fun d => (Property.ofReport d tag.2).toOption

def offers (catalog : Catalog) (groups : List TagGroup) : List Property :=
  (scanned groups).filterMap (offered? catalog)

/-- What is offered for one code. -/
def candidates (catalog : Catalog) (groups : List TagGroup) (code : Text) : List Property :=
  (offers catalog groups).filter (·.code = code)

/-- The record that is left when all offers have been made in turn. -/
def gathered (catalog : Catalog) (source : Text) (groups : List TagGroup) : Record :=
  (offers catalog groups).foldl offer (empty source)

/-- A tag that ends a build: its text can be read as a value without a form in file names. -/
def Unwritable (catalog : Catalog) (tag : Text × Text) : Prop :=
  ∃ d fault, catalog.byName? tag.1 = some d ∧ Property.ofReport d tag.2 = .error (.unwritable fault)

variable {catalog : Catalog} {groups : List TagGroup} {source : Text}

theorem scanned_cons (g : TagGroup) (groups : List TagGroup) :
    scanned (g :: groups) = if g.isThumbnail then scanned groups else g.tags ++ scanned groups := by
  cases hg : g.isThumbnail <;> simp [scanned, hg]

theorem property?_ofTag (group : Text) (tag : Text × Text) :
    (Reading.ofTag catalog group tag.1 tag.2).property? = offered? catalog tag := by
  rw [Reading.ofTag, offered?]
  cases catalog.byName? tag.1 with
  | none => rfl
  | some d =>
    simp only [Option.bind_some]
    rcases Property.ofReport d tag.2 with (fault | fault) | p <;> rfl

theorem unwritable?_ofTag (group : Text) (tag : Text × Text) :
    (Reading.ofTag catalog group tag.1 tag.2).unwritable? = none ↔ ¬ Unwritable catalog tag := by
  rw [Reading.ofTag, Unwritable]
  cases catalog.byName? tag.1 with
  | none => simp [Reading.unwritable?]
  | some d =>
    rcases h : Property.ofReport d tag.2 with (fault | fault) | p <;> simp [Reading.unwritable?, h]

theorem filterMap_property?_ofGroups :
    (Reading.ofGroups catalog groups).filterMap Reading.property? = offers catalog groups := by
  simp only [Reading.ofGroups, offers, scanned, List.filterMap_flatMap, List.filterMap_map,
    Function.comp_def, property?_ofTag]

theorem findSome?_unwritable?_ofGroups :
    (Reading.ofGroups catalog groups).findSome? Reading.unwritable? = none ↔
      ∀ tag ∈ scanned groups, ¬ Unwritable catalog tag := by
  rw [List.findSome?_eq_none_iff]
  simp only [Reading.ofGroups, scanned, List.mem_flatMap, List.mem_map, forall_exists_index, and_imp]
  constructor
  · intro h tag g hg ht
    exact (unwritable?_ofTag g.name tag).mp (h _ g hg tag ht rfl)
  · rintro h _ g hg tag ht rfl
    exact (unwritable?_ofTag g.name tag).mpr (h tag g hg ht)

/-- Gathering comes to a record just if no tag ends it. -/
theorem gather_eq_ok_iff {r : Record} :
    (gather catalog source groups).result = .ok r ↔
      (∀ tag ∈ scanned groups, ¬ Unwritable catalog tag) ∧ r = gathered catalog source groups := by
  rw [← findSome?_unwritable?_ofGroups, gathered, ← filterMap_property?_ofGroups]
  simp only [gather, usable, ofReadings]
  cases (Reading.ofGroups catalog groups).findSome? Reading.unwritable? with
  | none => simp [eq_comm]
  | some fault => simp

/-- What a record made of tags holds for a code. -/
theorem property?_gathered (code : Text) :
    (gathered catalog source groups).property? code =
      (candidates catalog groups code).foldl preferred none :=
  property?_offers (empty source) (offers catalog groups) code

theorem codes_gathered :
    (gathered catalog source groups).codes = ((offers catalog groups).map (·.code)).eraseDups :=
  codes_offers (offers catalog groups) source

theorem mem_codes_gathered {code : Text} :
    code ∈ (gathered catalog source groups).codes ↔ candidates catalog groups code ≠ [] := by
  rw [codes_gathered, List.mem_eraseDups, List.mem_map, candidates, Ne, List.filter_eq_nil_iff]
  simp

theorem offered?_eq_some_iff {tag : Text × Text} {p : Property} :
    offered? catalog tag = some p ↔
      ∃ d, catalog.byName? tag.1 = some d ∧ Property.ofReport d tag.2 = .ok p := by
  rw [offered?, Option.bind_eq_some_iff]
  simp only [toOption_eq_some_iff]

end PhotoNaming.Record
