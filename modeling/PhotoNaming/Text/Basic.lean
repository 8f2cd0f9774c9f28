/-!
Texts as lists of code points, with the few operations on them that the naming rules share.
-/

namespace PhotoNaming

/-- A text is the list of its code points. -/
abbrev Text := List Char

instance : Coe String Text := ⟨String.toList⟩

namespace Text

def ofNat (n : Nat) : Text := Nat.toDigits 10 n

def ofInt : Int → Text
  | .ofNat n => ofNat n
  | .negSucc n => '-' :: ofNat (n + 1)

def zeroPadded (width n : Nat) : Text := (ofNat n).leftpad width '0'

def spacePadded (width : Nat) (t : Text) : Text := t.rightpad width ' '

def joinWith (separator : Text) (parts : List Text) : Text := separator.intercalate parts

/-- Drops the characters in `p` from both ends. -/
def trimmed (p : Char → Bool) (t : Text) : Text :=
  ((t.dropWhile p).reverse.dropWhile p).reverse

def occurs (word : Text) : Text → Bool
  | [] => word.isEmpty
  | c :: rest => word.isPrefixOf (c :: rest) || occurs word rest

/-- Cuts at the first `separator`, which belongs to neither part; `none` if there is none. -/
def cutAt? (separator : Char) : Text → Option (Text × Text)
  | [] => none
  | c :: rest =>
    if c = separator then some ([], rest)
    else (cutAt? separator rest).map fun (before, after) => (c :: before, after)

/-- Replaces from the left, after leaving out the first `skip` characters. -/
def replacedFrom (old new : Text) : Nat → Text → Text
  | _, [] => []
  | skip + 1, _ :: rest => replacedFrom old new skip rest
  | 0, c :: rest =>
    if old.isPrefixOf (c :: rest) then new ++ replacedFrom old new (old.length - 1) rest
    else c :: replacedFrom old new 0 rest

/-- Replaces the occurrences of `old`, taken from the left without overlap, by `new`. -/
def replaced (old new t : Text) : Text := replacedFrom old new 0 t

def sorted (texts : List Text) : List Text := texts.mergeSort fun a b => decide (¬ b < a)

theorem length_dropWhile_le (p : Char → Bool) (t : Text) : (t.dropWhile p).length ≤ t.length :=
  (List.dropWhile_suffix p).length_le

end Text

end PhotoNaming
