import PhotoNaming.Proofs.FileTree.Effect
import PhotoNaming.Proofs.Path.Directory

/-! How deep paths lead. A path from the root leads no deeper than it has parts that count, so the
directories that are made for it are no deeper either. -/
namespace PhotoNaming.FileTree

variable {tree after : FileTree} {path : Text} {place : Location} {depth : Nat}

theorem walk_length_le {todo : List Text} {d : Destination} (h : tree.walk place todo = .ok d)
    {q : Location} (hq : d = .free q ∨ ∃ entry, d = .found q entry) :
    q.length ≤ place.length + (todo.filter fun p => p ≠ [] ∧ p ≠ ['.']).length := by
  induction todo generalizing place with
  | nil =>
    rw [walk, Except.ok.injEq] at h
    subst h
    obtain ⟨entry, he⟩ := hq.resolve_left (by simp)
    rw [(Destination.found.inj he).1]
    exact Nat.le_add_right _ _
  | cons part rest ih =>
    rcases part_cases part with hs | rfl | hn
    · rw [walk_stay hs] at h
      rw [List.filter_cons_of_neg (by rcases hs with rfl | rfl <;> simp)]
      exact ih h
    · rw [walk_up] at h
      have hle := ih h
      rw [List.length_dropLast] at hle
      rw [List.filter_cons_of_pos (by simp), List.length_cons]
      omega
    · rw [List.filter_cons_of_pos (by simp [hn.1, hn.2.1]), List.length_cons]
      obtain ⟨_, ⟨_, hr⟩ | ⟨_, he⟩⟩ := walk_cons_ok hn h
      · have hle := ih hr
        rw [List.length_append, List.length_singleton] at hle
        omega
      · have hplace : q = place ++ [part] := by
          rw [he, destination] at hq
          split at hq <;> simp_all
        rw [hplace, List.length_append, List.length_singleton]
        omega

theorem Reaches.length_le (h : tree.Reaches path place) (ha : Path.isAbsolute path = true) :
    place.length ≤ (Path.components path).length := by
  have hw := h.walk
  rw [start, if_pos ha] at hw
  have hle := walk_length_le hw (q := place) (by
    rw [destination]
    split
    · exact .inr ⟨_, rfl⟩
    · exact .inl rfl)
  simpa [Path.components] using hle

/-- More directories, none of them deeper than `depth`. -/
structure GrowsTo (depth : Nat) (tree after : FileTree) : Prop extends tree.Grows after where
  below : ∀ place : Location, depth < place.length → after.lookup? place = tree.lookup? place

namespace GrowsTo

theorem makeDirectory (hp : tree.Plain) (ha : Path.isAbsolute path = true)
    (hd : (Path.components path).length ≤ depth) :
    tree.GrowsTo depth (tree.makeDirectory path).tree := by
  refine ⟨.makeDirectory hp path, ?_⟩
  intro other hlong
  rcases hp.makeDirectory_cases path with ⟨place, _, hr, hn, he⟩ | ⟨fault, he⟩
  · have hne : path ≠ [] := by
      rintro rfl
      cases ha
    have hle := hr.length_le (by rw [Path.isAbsolute_bare hne, ha])
    rw [Path.components_bare] at hle
    rw [he, lookup?_inserted (ne_nil_of_lookup?_none hn) hn, if_neg]
    rintro rfl
    omega
  · rw [he]

/-- What stands above an absolute path is absolute, and not as deep. -/
theorem making (depth : Nat) :
    Making (fun path => Path.isAbsolute path = true ∧ (Path.components path).length ≤ depth)
      (GrowsTo depth) where
  refl hp := ⟨.refl hp, fun _ _ => rfl⟩
  trans h h' :=
    ⟨h.toGrows.trans h'.toGrows, fun place hd => (h'.below place hd).trans (h.below place hd)⟩
  plain h := h.plain
  single hp h := makeDirectory hp h.1 h.2
  above := by
    rintro path above ⟨ha, hd⟩ hm
    have hne : path ≠ [] := by
      rintro rfl
      cases ha
    obtain ⟨rest, hb, hnil, _⟩ := Path.mem_above hm
    have hc := Path.components_append_slash above rest
    rw [← hb, Path.components_bare] at hc
    have habs := Path.isAbsolute_append hnil ('/' :: rest)
    rw [← hb, Path.isAbsolute_bare hne, ha] at habs
    refine ⟨habs.symm, ?_⟩
    rw [hc, List.length_append] at hd
    omega

end GrowsTo

end PhotoNaming.FileTree
