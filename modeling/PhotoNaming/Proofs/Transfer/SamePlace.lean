import PhotoNaming.Proofs.FileTree.Retracing
import PhotoNaming.Proofs.Transfer.Candidates
import PhotoNaming.Proofs.Transfer.Sparing

/-! The directories that are made and the files that go there. A directory is made by the path it is joined
to, a file is written by a normal form, and the two meet unless the path goes up from a link. -/
namespace PhotoNaming

open PhotoNaming.Path (IsName slashed)
open PhotoNaming.FileTree

namespace Plan

variable {tree : FileTree} {more : List (Location × Entry)} {records : List Record} {pattern : Pattern}
  {levels : List Pattern} {directory : Text} {valid : List Text} {r : Record} {base place : Location}

/-- The levels of a record lead to one place from the directory for new files on, once the directories
of the plan are there. -/
private theorem exists_place (he : tree.Extends (tree.extended more))
    (hb : tree.entryAt directory = .ok (base, .directory))
    (hm : ∀ d ∈ (ofRecords tree records pattern levels directory valid).newDirectories,
      (tree.extended more).isDirectory d = true) (hr : r ∈ records) :
    ∃ place,
      (levels = [] → place = base) ∧
      IsPath (Path.normal (Path.join directory (slashed (levelNames levels r)))) ∧
      (tree.extended more).lead true maxLinks (tree.start directory)
        (Path.parts directory ++ levelNames levels r) = .ok (.found place .directory) ∧
      (levels ≠ [] ∨ byteCount (Path.join directory (slashed (levelNames levels r))) ≤ maxPathBytes →
        (tree.extended more).entryAt (Path.join directory (slashed (levelNames levels r))) =
          .ok (place, .directory)) := by
  have hbase := he.entryAt hb
  have hi := isPath_of_entryAt hb
  have hn : ∀ n ∈ levelNames levels r, IsName n := fun n hn => isName_of_mem_levelNames hn
  by_cases hl : levels = []
  · have hnil : levelNames levels r = [] := by simp [levelNames, hl]
    have hled := locate_of_entryAt hbase
    rw [hi.locate_eq] at hled
    rw [hnil, Path.slashed_nil, Path.normal_join_nil, List.append_nil]
    exact ⟨base, fun _ => rfl, hi.normal, hled, fun hs =>
      entryAt_join_nil hbase (hs.resolve_left (not_not_intro hl))⟩
  · obtain ⟨place, hplace⟩ : ∃ place,
        (tree.extended more).entryAt (Path.join directory (slashed (levelNames levels r))) =
          .ok (place, .directory) := by
      rw [← isDirectory_iff_entryAt]
      have hne : levelNames levels r ≠ [] := by simpa [levelNames] using hl
      cases hd : tree.isDirectory (Path.join directory (slashed (levelNames levels r))) with
      | true => exact he.isDirectory hd
      | false => exact hm _ (mem_newDirectories.mpr ⟨⟨_, ⟨hne, r, hr, List.prefix_refl _⟩, rfl⟩, hd⟩)
    have hpath := isPath_of_entryAt hplace
    have hled := locate_of_entryAt hplace
    rw [hpath.locate_eq, start_join _ directory (Path.isAbsolute_slashed hn)] at hled
    exact ⟨place, fun h => absurd h hl, hpath.normal, lead_parts_join hi.ne_nil hn hled,
      fun _ => hplace⟩

section

variable {t : FileTree} (hi : IsPath (Path.normal (Path.join directory (slashed (levelNames levels r)))))
include hi

/-- The levels lead on from the normal form of the path for new files. -/
private theorem locate_levels (follow : Bool) :
    t.locate follow (Path.normal (Path.join directory (slashed (levelNames levels r)))) =
      t.lead follow maxLinks (t.start directory) (Path.normalParts directory ++ levelNames levels r) := by
  rw [hi.locate_eq, t.lead_normal_join directory fun n hn => isName_of_mem_levelNames hn]

private theorem entryAt_levels (h : t.lead true maxLinks (t.start directory)
      (Path.normalParts directory ++ levelNames levels r) = .ok (.found place .directory)) :
    t.entryAt (Path.normal (Path.join directory (slashed (levelNames levels r)))) =
      .ok (place, .directory) := by
  rw [FileTree.entryAt, locate_levels hi, h]

private theorem entryAt_levels_or_tooManyLinks (hb : t.entryAt directory = .ok (base, .directory))
    (hs : t.entryAt (Path.normal directory) = .ok (base, .directory))
    (h : t.lead true maxLinks (t.start directory) (Path.parts directory ++ levelNames levels r) =
      .ok (.found place .directory)) :
    t.entryAt (Path.normal (Path.join directory (slashed (levelNames levels r)))) =
        .ok (place, .directory) ∨
      t.entryAt (Path.normal (Path.join directory (slashed (levelNames levels r)))) =
        .error .tooManyLinks := by
  have hplain := locate_of_entryAt hb
  have hnormal := locate_of_entryAt hs
  have hd := isPath_of_entryAt hb
  rw [hd.locate_eq] at hplain
  rw [hd.normal.locate_eq, lead_normal, start_normal] at hnormal
  refine (lead_append_eq_or_tooManyLinks hplain hnormal h).imp (entryAt_levels hi) fun he => ?_
  rw [FileTree.entryAt, locate_levels hi, he]

end

/-- What is tried for a planned file and is free stands where the levels lead. -/
private theorem dropLast_of_mem_candidates {t : FileTree} {number : Nat} {c : Text} {q : Location}
    (h : t.lead true maxLinks (t.start directory)
      (Path.normalParts directory ++ levelNames levels r) = .ok (.found place .directory))
    (hc : c ∈ candidates ((NamedRecord.ofRecord pattern levels valid r).target directory number))
    (hq : t.locate false c = .ok (.free q)) : q.dropLast = place := by
  have hn : ∀ m ∈ levelNames levels r, IsName m := fun m hm => isName_of_mem_levelNames hm
  have hs := NamedRecord.sound_ofRecord pattern levels valid r
  obtain ⟨mark, hmark, hmarked⟩ := hs.mem_candidates hn rfl rfl hc
  have hname := hs.isName_markedName hmark number
  rw [(isPath_of_locate hq).locate_eq, hmarked, t.lead_normal_join_name directory hn hname] at hq
  exact dropLast_of_lead_free h hname hq

end Plan

namespace Transfer

variable {tree after : FileTree}

theorem isDirectory_directories {paths : List Text}
    (h : (directories tree (fun after => ⟨after, [], [], none⟩) paths).fault = none) {path : Text}
    (hp : path ∈ paths) :
    (directories tree (fun after => ⟨after, [], [], none⟩) paths).tree.isDirectory path = true := by
  induction paths generalizing tree with
  | nil => cases hp
  | cons first rest ih =>
    rw [directories] at h ⊢
    split at h
    · rename_i hd
      rw [if_pos hd]
      rcases List.mem_cons.mp hp with rfl | hp
      · exact (extends_directories tree rest).isDirectory hd
      · exact ih h hp
    · rename_i hd
      rw [if_neg hd]
      dsimp only at h ⊢
      split at h
      · cases h
      · rename_i hnone
        rcases List.mem_cons.mp hp with rfl | hp
        · exact (extends_directories _ rest).isDirectory (isDirectory_makeDirectories hnone)
        · exact ih h hp

variable (tree) (records : List Record) (pattern : Pattern) (levels : List Pattern) (directory : Text)
  (valid : List Text)

/-- A plan's directories are there when the first part of its run has come through. Then the directory of a
record's last level, by the path it is made by, and the one that its new path stands in are the same, and so
are those of all paths that are tried for it, if no `..` of the path for new files stands behind a link. In
any case they are the same if the normal form of that path leads where the path leads, unless there are then
too many links on the way, and without levels only if it does. -/
theorem files_go_where_directories_are_made (hd : tree.isDirectory directory = true) :
    let plan := Plan.ofRecords tree records pattern levels directory valid
    ((prepared tree plan).fault = none →
      tree.Extends (prepared tree plan).tree ∧
        ∀ d ∈ plan.newDirectories, (prepared tree plan).tree.isDirectory d = true) ∧
    ∀ after, tree.Extends after → (∀ d ∈ plan.newDirectories, after.isDirectory d = true) →
      ∀ r ∈ records, ∀ number,
        let n := NamedRecord.ofRecord pattern levels valid r
        let made := Path.join directory n.lastDirectory
        let above := Path.parent (n.target directory number)
        ∃ place,
          (levels = [] → tree.entryAt directory = .ok (place, .directory)) ∧
          (levels ≠ [] ∨ byteCount made ≤ maxPathBytes →
            after.entryAt made = .ok (place, .directory)) ∧
          (tree.LeavesNoLink directory →
            after.entryAt above = .ok (place, .directory) ∧
              ∀ c ∈ candidates (n.target directory number), ∀ q,
                after.locate false c = .ok (.free q) → q.dropLast = place) ∧
          (after.entryAt (Path.normal directory) = after.entryAt directory →
            after.entryAt above = .ok (place, .directory) ∨
              after.entryAt above = .error .tooManyLinks) ∧
          (levels = [] → (after.entryAt above = .ok (place, .directory) ↔
            after.entryAt (Path.normal directory) = after.entryAt directory)) := by
  intro plan
  refine ⟨fun hf => ⟨extends_directories tree _, fun d hm =>
    isDirectory_directories hf (Text.mem_sorted.mpr hm)⟩, ?_⟩
  intro after he hm r hr number n made above
  obtain ⟨base, hb⟩ := isDirectory_iff_entryAt.mp hd
  have hbase := he.entryAt hb
  obtain ⟨more, rfl, _⟩ := id he
  have habove : above = Path.normal (Path.join directory (slashed (Plan.levelNames levels r))) := by
    simpa only [Plan.fileOf] using Plan.parent_target pattern levels directory valid number r
  have hmade : made = Path.join directory (slashed (Plan.levelNames levels r)) := by
    simp only [made, n, Plan.lastDirectory_ofRecord]
  obtain ⟨place, hnil, hi, hled, hplace⟩ := Plan.exists_place he hb hm hr
  rw [habove, hmade]
  refine ⟨place, fun hl => by rw [hb, hnil hl], hplace, fun hl => ?_, fun hs => ?_, fun hl => ?_⟩
  · have hretraced := (hl.lead_parts_append hb _).symm.trans hled
    exact ⟨Plan.entryAt_levels hi hretraced, fun c hc q hq =>
      Plan.dropLast_of_mem_candidates hretraced hc hq⟩
  · exact Plan.entryAt_levels_or_tooManyLinks hi hbase (hs.trans hbase) hled
  · have hnone : Plan.levelNames levels r = [] := by simp [Plan.levelNames, hl]
    rw [hnone, Path.slashed_nil, Path.normal_join_nil, hbase, hnil hl]

/-- A photo, two directories, and a link to the inner one. -/
private def inwards : FileTree where
  entries := [(["a"], .directory), (["a", "b"], .directory), (["l"], .link "a/b"),
    (["p.jpg"], .file (.ofText ['p'] 0))]
  working := []

private def patternOf (t : Text) : Pattern := ⟨t, [.literal t]⟩

/-- A plan for the photo and one directory level. -/
private def planBelow (directory : Text) : Plan :=
  Plan.ofRecords inwards [.empty "p.jpg"] (patternOf "p") [patternOf "x"] directory [".jpg"]

private theorem newDirectories_planBelow {directory : Text}
    (hd : inwards.isDirectory (Path.join directory "x/") = false) :
    (planBelow directory).newDirectories = [Path.join directory "x/"] := by
  have hlevel : FileName.directories (.empty "p.jpg") [patternOf "x"] = ["x/".toList] := by decide +kernel
  have hfound : (planBelow directory).newDirectories =
      ((FileName.directories (.empty "p.jpg") [patternOf "x"]).map (Path.join directory)).foldl
        (Plan.noted inwards) [] := by
    simp only [planBelow, Plan.ofRecords, Plan.ofNamed, Plan.missingDirectories, NamedRecord.ofRecord,
      List.map_cons, List.map_nil, List.flatMap_cons, List.flatMap_nil, List.append_nil]
  rw [hfound, hlevel, List.map_singleton, List.foldl_cons, List.foldl_nil, Plan.noted, hd]
  rfl

section

variable {t : FileTree} (ht : inwards.Extends t) (follow : Bool) (links : Nat) (rest : List Text)
include ht

private theorem lead_a : t.lead follow links [] (['a'] :: rest) = t.lead follow links [['a']] rest :=
  lead_directory (by decide) (by decide) (ht.lookup? rfl) follow rest

private theorem lead_l (h : follow = true ∨ rest ≠ []) :
    t.lead follow (links + 1) [] (['l'] :: rest) = t.lead follow links [['a'], ['b']] rest := by
  have hgoes : ¬(rest = [] ∧ !follow) := by grind
  have hlink : inwards.lookup? ([] ++ [['l']]) = some (.link "a/b") := rfl
  rw [lead_cons (by decide), ht.lookup? hlink]
  simp only [if_neg hgoes]
  exact (lead_a ht follow links (['b'] :: rest)).trans
    (lead_directory (by decide) (by decide) (ht.lookup? rfl) follow rest)

/-- Where a path leads is where its parts lead. -/
private theorem locate_inwards {path : Text} {d : Except Refusal Destination} (hi : IsPath path)
    (ha : Path.isAbsolute path = false) (h : t.lead follow maxLinks [] (Path.parts path) = d) :
    t.locate follow path = d := by
  obtain ⟨more, rfl, _⟩ := ht
  rw [hi.locate_eq, start_extended, start, ha]
  exact h

end

/-- What comes behind a path goes on from a place, with so many links to follow. -/
private def LeadsTo (path : Text) (links : Nat) (base : Location) : Prop :=
  ∀ t, inwards.Extends t → ∀ follow rest, follow = true ∨ rest ≠ [] →
    t.lead follow maxLinks [] (Path.parts path ++ rest) = t.lead follow links base rest

namespace LeadsTo

variable {path : Text} {links : Nat} {base : Location}

private theorem inner : LeadsTo "a" 40 ["a"] := fun _ ht follow rest _ => lead_a ht follow 40 rest

private theorem link : LeadsTo "l" 39 ["a", "b"] := fun _ ht follow rest hr => lead_l ht follow 39 rest hr

private theorem up (h : LeadsTo path links base) : LeadsTo (path ++ "/..".toList) links base.dropLast := by
  intro t ht follow rest _
  rw [show Path.parts (path ++ "/..".toList) = Path.parts path ++ [['.', '.']] from
    Path.parts_append_slash path "..", List.append_assoc, List.singleton_append,
    h t ht _ _ (.inr (by simp)), lead_up]

private theorem out : LeadsTo "l/.." 39 ["a"] := link.up

private theorem across : LeadsTo "a/../l" 39 ["a", "b"] := by
  intro t ht follow rest hr
  exact (inner.up t ht follow (['l'] :: rest) (.inr (by simp))).trans (lead_l ht follow 39 rest hr)

private theorem entryAt (h : LeadsTo path links base) (hi : IsPath path)
    (ha : Path.isAbsolute path = false) : inwards.entryAt path = .ok (base, .directory) := by
  have hl := h inwards (.refl inwards) true [] (.inl rfl)
  rw [List.append_nil, lead] at hl
  rw [FileTree.entryAt, locate_inwards (.refl inwards) true hi ha hl]

private theorem exists? (h : LeadsTo path links base) (hi : IsPath path)
    (ha : Path.isAbsolute path = false) : inwards.exists? path = true := by
  rw [FileTree.exists?, h.entryAt hi ha]
  rfl

/-- The missing directory is made in the place that a path leads to. -/
private theorem prepared_planBelow (h : LeadsTo path links base)
    (hi : ∀ behind ∈ ["/x".toList, "/x/".toList], IsPath (path ++ behind) ∧
      Path.isAbsolute (path ++ behind) = false)
    (hj : Path.join path "x/" = path ++ "/x/".toList)
    (hfree : inwards.lookup? (base ++ [['x']]) = none)
    (habove : ∀ above ∈ Path.above (path ++ "/x/".toList), inwards.exists? above = true) :
    let first := prepared inwards (planBelow path)
    first.fault = none ∧ first.tree = inwards.inserted (base ++ [['x']]) .directory ∧
      first.tree.entryAt (Path.join path "x/") = .ok (base ++ [['x']], .directory) := by
  obtain ⟨hplain, haplain⟩ := hi "/x".toList (by simp)
  obtain ⟨hslash, haslash⟩ := hi "/x/".toList (by simp)
  have hparts : Path.parts (path ++ "/x/".toList) = Path.parts path ++ [['x'], []] :=
    Path.parts_append_slash path "x/"
  have hx : IsEntryName ['x'] := by decide
  have hmissing : inwards.isDirectory (path ++ "/x/".toList) = false := by
    have hl := h inwards (.refl inwards) true [['x'], []] (.inl rfl)
    rw [lead_cons hx, hfree, ← hparts] at hl
    rw [isDirectory, FileTree.entryAt, locate_inwards (.refl inwards) true hslash haslash hl]
    rfl
  have hmade : inwards.makeDirectories true (path ++ "/x/".toList) =
      ⟨inwards.inserted (base ++ [['x']]) .directory, none⟩ := by
    have hl := h inwards (.refl inwards) false [['x']] (.inr (by simp))
    rw [lead_cons hx, hfree, ← show Path.parts (path ++ "/x".toList) = Path.parts path ++ [['x']] from
      Path.parts_append_slash path "x"] at hl
    refine makeDirectories_of_free habove hmissing hslash.short ?_
    rw [show Path.bare (path ++ "/x/".toList) = path ++ "/x".toList by simp [Path.bare]]
    exact locate_inwards (.refl inwards) false hplain haplain hl
  have hat : (inwards.inserted (base ++ [['x']]) .directory).entryAt (path ++ "/x/".toList) =
      .ok (base ++ [['x']], .directory) := by
    have ht := Extends.inserted hfree .directory
    have hl := h _ ht true [['x'], []] (.inl rfl)
    rw [lead_cons hx, lookup?_inserted (by simp) hfree, if_pos rfl, ← hparts] at hl
    rw [FileTree.entryAt,
      locate_inwards ht true hslash haslash (hl.trans (by rw [lead_stay (.inl rfl), lead]))]
  rw [← hj] at hmissing hmade
  obtain ⟨entries, he⟩ := directories_cons_of_done (fun after => ⟨after, [], [], none⟩) [] hmissing hmade
  have hsorted : Text.sorted [Path.join path "x/"] = [Path.join path "x/"] := by
    rw [Text.sorted, List.mergeSort_singleton]
  rw [prepared, newDirectories_planBelow hmissing, hsorted, he, hj]
  exact ⟨rfl, rfl, hat⟩

end LeadsTo

private theorem lastDirectory_planBelow :
    (NamedRecord.ofRecord (patternOf "p") [patternOf "x"] [".jpg"] (.empty "p.jpg")).lastDirectory =
      "x/".toList := by
  decide +kernel

theorem levels_are_made_behind_a_link :
    let first := prepared inwards (planBelow "a/../l")
    let n := NamedRecord.ofRecord (patternOf "p") [patternOf "x"] [".jpg"] (.empty "p.jpg")
    inwards.isDirectory "a/../l" = true ∧ inwards.LeavesNoLink "a/../l" ∧ first.fault = none ∧
      first.tree.entryAt (Path.join "a/../l" n.lastDirectory) = .ok (["a", "b", "x"], .directory) ∧
      first.tree.entryAt (Path.parent (n.target "a/../l" 1)) = .ok (["a", "b", "x"], .directory) := by
  intro first n
  have hd : inwards.isDirectory "a/../l" = true := by
    rw [isDirectory, LeadsTo.across.entryAt (by decide) rfl]
  have hl : inwards.LeavesNoLink "a/../l" := by
    intro front back h
    have hfront : front = [['a']] := by
      rw [show Path.parts "a/../l" = [['a'], ['.', '.'], ['l']] from rfl] at h
      rcases front with _ | ⟨first, _ | ⟨second, _ | ⟨third, front⟩⟩⟩ <;> simp_all
    have ha : inwards.locate false "a" = .ok (.found ["a"] .directory) :=
      locate_inwards (.refl inwards) false (by decide) rfl
        ((lead_a (.refl inwards) false _ []).trans (by rw [lead]; rfl))
    rw [hfront, linkTarget?, show Path.normal (Text.joinWith ['/'] [['a']]) = "a".toList from rfl, ha]
  have hthere : ∀ above ∈ Path.above ("a/../l".toList ++ "/x/".toList), inwards.exists? above = true := by
    rw [show Path.above ("a/../l".toList ++ "/x/".toList) =
      ["a".toList, "a/..".toList, "a/../l".toList] from rfl]
    simp only [List.forall_mem_cons]
    exact ⟨LeadsTo.inner.exists? (by decide) rfl, LeadsTo.inner.up.exists? (by decide) rfl,
      LeadsTo.across.exists? (by decide) rfl, by simp⟩
  obtain ⟨hfault, _, hplace⟩ := LeadsTo.across.prepared_planBelow (by decide) (by decide) rfl hthere
  obtain ⟨hmade, hmeet⟩ := files_go_where_directories_are_made inwards [.empty "p.jpg"] (patternOf "p")
    [patternOf "x"] "a/../l" [".jpg"] hd
  obtain ⟨hext, hdirs⟩ := hmade hfault
  obtain ⟨place, _, hmade, habove, _⟩ := hmeet _ hext hdirs _ (List.mem_singleton_self _) 1
  rw [← lastDirectory_planBelow] at hplace
  have hsame := hplace.symm.trans (hmade (.inl (by simp)))
  obtain ⟨rfl, _⟩ := Prod.mk.inj (Except.ok.inj hsame)
  exact ⟨hd, hl, hfault, hplace, (habove hl).1⟩

/-- A `..` behind a link goes up from where the link leads, and its normal form does not. Then a photo is to
go to a directory that has been made elsewhere. -/
theorem level_is_made_elsewhere :
    let first := prepared inwards (planBelow "l/..")
    let n := NamedRecord.ofRecord (patternOf "p") [patternOf "x"] [".jpg"] (.empty "p.jpg")
    inwards.isDirectory "l/.." = true ∧ first.fault = none ∧
      first.tree.entryAt (Path.join "l/.." n.lastDirectory) = .ok (["a", "x"], .directory) ∧
      first.tree.entryAt (Path.parent (n.target "l/.." 1)) = .error .notFound := by
  intro first n
  have hd : inwards.isDirectory "l/.." = true := by
    rw [isDirectory, LeadsTo.out.entryAt (by decide) rfl]
  have hthere : ∀ above ∈ Path.above ("l/..".toList ++ "/x/".toList), inwards.exists? above = true := by
    rw [show Path.above ("l/..".toList ++ "/x/".toList) = ["l".toList, "l/..".toList] from rfl]
    simp only [List.forall_mem_cons]
    exact ⟨LeadsTo.link.exists? (by decide) rfl, LeadsTo.out.exists? (by decide) rfl, by simp⟩
  obtain ⟨hfault, htree, hplace⟩ := LeadsTo.out.prepared_planBelow (by decide) (by decide) rfl hthere
  have hmissing : first.tree.locate true "x" = .ok (.free ["x"]) := by
    rw [htree, locate_name (by decide) (by rintro _ ⟨⟩)]
    rfl
  rw [← lastDirectory_planBelow] at hplace
  refine ⟨hd, hfault, hplace, ?_⟩
  rw [show Path.parent (n.target "l/.." 1) = "x".toList by decide +kernel, FileTree.entryAt, hmissing]

end Transfer

end PhotoNaming
