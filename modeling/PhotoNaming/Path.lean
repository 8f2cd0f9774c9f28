import PhotoNaming.Text.Basic

/-!
Slash-separated paths as texts: taking them apart, joining them, and their normal form.
-/

namespace PhotoNaming.Path

def fileName (path : Text) : Text := (path.reverse.takeWhile (· ≠ '/')).reverse

/-- The path up to its last slash, that slash included. -/
def head (path : Text) : Text := (path.reverse.dropWhile (· ≠ '/')).reverse

/-- The directory part, without the slashes at its end unless it is made of slashes only. -/
def directory (path : Text) : Text :=
  if (head path).all (· = '/') then head path
  else ((head path).reverse.dropWhile (· = '/')).reverse

/-- Cuts a file name before its last dot. Dots at the front of the name do not start an
extension. -/
def splitName (name : Text) : Text × Text :=
  let stem := (name.reverse.dropWhile (· ≠ '.')).reverse.dropLast
  if stem.all (· = '.') then (name, []) else (stem, name.drop stem.length)

def splitExtension (path : Text) : Text × Text :=
  (head path ++ (splitName (fileName path)).1, (splitName (fileName path)).2)

def extension (path : Text) : Text := (splitName (fileName path)).2

def stem (path : Text) : Text := (splitName (fileName path)).1

def isAbsolute (path : Text) : Bool := path.head? = some '/'

/-- `next` seen from `base`; an absolute `next` stands for itself. -/
def join (base next : Text) : Text :=
  if isAbsolute next then next
  else if base = [] ∨ base.getLast? = some '/' then base ++ next
  else base ++ '/' :: next

def bare (path : Text) : Text :=
  match (path.reverse.dropWhile (· = '/')).reverse with
  | [] => path
  | shorter => shorter

/-- What stands before each slash of the rest of a path, repeated slashes counting once. -/
def headsBehind (before : Text) : Text → List Text
  | [] => []
  | c :: rest =>
    if c = '/' ∧ before ≠ [] ∧ before.getLast? ≠ some '/' then
      before :: headsBehind (before ++ [c]) rest
    else headsBehind (before ++ [c]) rest

def above (path : Text) : List Text := headsBehind [] (bare path)

def parts (path : Text) : List Text := path.splitOn '/'

/-- Adds a part to parts in normal form: empty and `.` change nothing, and `..` takes the last part
back where there is one. -/
def push (rooted : Bool) (done : List Text) (part : Text) : List Text :=
  if part = [] ∨ part = ['.'] then done
  else if part ≠ ['.', '.'] then done ++ [part]
  else
    match done.getLast? with
    | some last => if last = ['.', '.'] then done ++ [part] else done.dropLast
    | none => if rooted then done else done ++ [part]

/-- The leading slashes that count: exactly two stay two, any other number becomes one. -/
def root (path : Text) : Text :=
  match path.takeWhile (· = '/') with
  | [] => []
  | [_, _] => ['/', '/']
  | _ => ['/']

def normalParts (path : Text) : List Text :=
  (parts path).foldl (push (isAbsolute path)) []

/-- The same path without `.`, empty parts, and `..` behind a name. -/
def normal (path : Text) : Text :=
  match root path ++ Text.joinWith ['/'] (normalParts path) with
  | [] => ['.']
  | written => written

def absolute (base path : Text) : Text := normal (join base path)

end PhotoNaming.Path
