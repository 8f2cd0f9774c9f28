import PhotoNaming.Pattern.Compiled

/-! How many levels a text of level patterns has. -/
namespace PhotoNaming.Pattern

/-- A blank text has no level; otherwise there is one more than there are semicolons. -/
def levelCount (text : Text) : Nat := if Text.stripped text = [] then 0 else text.count ';' + 1

private theorem length_splitOn (t : Text) (c : Char) : (t.splitOn c).length = t.count c + 1 := by
  induction t with
  | nil => simp
  | cons d t ih =>
    rw [List.splitOn_cons_eq_if_modifyHead, List.count_cons]
    split <;> simp [ih]

theorem length_compileLevels (text : Text) : (compileLevels text).length = levelCount text := by
  rw [compileLevels, levelCount]
  split
  · rfl
  · rw [List.length_map, length_splitOn]

end PhotoNaming.Pattern
