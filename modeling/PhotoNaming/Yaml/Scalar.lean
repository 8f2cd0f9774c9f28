import PhotoNaming.Text.Basic

/-!
The written forms of scalars in YAML texts: plain words, words between quotes, and blocks of lines.
Lines end with line feeds. Each reading answers with the scalar and what stands behind it.
-/

namespace PhotoNaming.Yaml

def isGap : Text → Bool
  | [] => true
  | c :: _ => c = ' ' || c = '\t' || c = '\n'

/-- Three dashes or three dots alone, at the start of a line, part documents. -/
def isDocumentMark (mark : Char) : Text → Bool
  | a :: b :: c :: rest => a = mark && b = mark && c = mark && isGap rest
  | _ => false

private def isAnyDocumentMark (t : Text) : Bool := isDocumentMark '-' t || isDocumentMark '.' t

/-- A break between two lines: one alone is a space, and of several the first does not count. -/
private def foldedBreaks (count : Nat) : Text :=
  if count ≤ 1 then [' '] else List.replicate (count - 1) '\n'

/-- Leaves out blank lines at the start. Answers with their number, and with the first line that is
not blank, its indentation included; `none` if a document ends among them. -/
private def blankLines (isBlank : Char → Bool) : Nat → Text → Option (Nat × Text)
  | 0, t => some (0, t)
  | fuel + 1, t =>
    if isAnyDocumentMark t then none
    else
      match t.dropWhile isBlank with
      | '\n' :: rest => (blankLines isBlank fuel rest).map fun (n, rest) => (n + 1, rest)
      | _ => some (0, t)

private def isFlowMark (c : Char) : Bool := ",?[]\x7b\x7d".toList.contains c

/-- The characters of a plain word up to a blank, a colon that ends a key, or a mark of the brackets
around it. -/
def plainWord (flow : Bool) : Text → Text
  | [] => []
  | c :: rest =>
    let endsKey := c = ':' && (isGap rest || (flow && ",[]\x7b\x7d".toList.contains (rest.headD ' ')))
    if isGap [c] || endsKey || (flow && isFlowMark c) then [] else c :: plainWord flow rest

/-- The text that stands for the gap behind a plain word, and the next word's place. There is none
before a comment, a document's end, or a line that is not indented enough. -/
private def plainGap? (flow : Bool) (indent : Nat) (t : Text) : Option (Text × Text) :=
  let spaces := t.takeWhile (· = ' ')
  match t.dropWhile (· = ' ') with
  | '\n' :: rest => do
    let (blank, line) ← blankLines (· = ' ') rest.length rest
    let column := (line.takeWhile (· = ' ')).length
    let next := line.dropWhile (· = ' ')
    if next.head? = some '#' ∨ (!flow ∧ column < indent) then none
    else some (foldedBreaks (blank + 1), next)
  | next => if spaces = [] ∨ next.head? = some '#' then none else some (spaces, next)

/-- A plain scalar: words and the gaps between them. Its lines have to be indented by `indent`,
but for those within brackets. -/
def plainScalar (flow : Bool) (indent : Nat) : Nat → Text → Text × Text
  | 0, t => ([], t)
  | fuel + 1, t =>
    let word := plainWord flow t
    let behind := t.drop word.length
    match plainGap? flow indent behind with
    | none => (word, behind)
    | some (gap, next) =>
      match plainScalar flow indent fuel next with
      | ([], _) => (word, behind)
      | (more, rest) => (word ++ gap ++ more, rest)

private def quotedGap? (t : Text) : Option (Text × Text) :=
  let isBlank (c : Char) : Bool := c = ' ' || c = '\t'
  match t.dropWhile isBlank with
  | '\n' :: rest => do
    let (blank, line) ← blankLines isBlank rest.length rest
    some (foldedBreaks (blank + 1), line.dropWhile isBlank)
  | next => some (t.takeWhile isBlank, next)

def singleQuoted : Nat → Text → Option (Text × Text)
  | 0, _ => none
  | fuel + 1, t =>
    match t with
    | [] => none
    | '\'' :: '\'' :: rest => (singleQuoted fuel rest).map fun (body, rest) => ('\'' :: body, rest)
    | '\'' :: rest => some ([], rest)
    | c :: rest =>
      if isGap [c] then do
        let (gap, next) ← quotedGap? (c :: rest)
        (singleQuoted fuel next).map fun (body, rest) => (gap ++ body, rest)
      else (singleQuoted fuel rest).map fun (body, rest) => (c :: body, rest)

private def escapes : List (Char × Nat) :=
  [('0', 0), ('a', 7), ('b', 8), ('t', 9), ('\t', 9), ('n', 10), ('v', 11), ('f', 12), ('r', 13),
    ('e', 27), (' ', 32), ('"', 34), ('/', 47), ('\\', 92), ('N', 0x85), ('_', 0xA0), ('L', 0x2028),
    ('P', 0x2029)]

private def escapeLengths : List (Char × Nat) := [('x', 2), ('u', 4), ('U', 8)]

private def hexValue? (c : Char) : Option Nat :=
  if c.isDigit then some (c.toNat - '0'.toNat)
  else if 'a' ≤ c.toLower ∧ c.toLower ≤ 'f' then some (c.toLower.toNat - 'a'.toNat + 10)
  else none

/-- The character with a code; surrogates have none. -/
private def charOf? (code : Nat) : Option Char :=
  if code.isValidChar then some (Char.ofNat code) else none

private def escape? : Text → Option (Text × Text)
  | [] => none
  | '\n' :: rest => do
    let (blank, line) ← blankLines (fun c => c = ' ' || c = '\t') rest.length rest
    some (List.replicate blank '\n', line.dropWhile fun c => c = ' ' || c = '\t')
  | c :: rest =>
    match escapes.lookup c, escapeLengths.lookup c with
    | some code, _ => some ([Char.ofNat code], rest)
    | none, some length =>
      if rest.length < length then none
      else do
        let code ← (rest.take length).foldlM (fun n d => (hexValue? d).map (n * 16 + ·)) 0
        (charOf? code).map fun found => ([found], rest.drop length)
    | none, none => none

def doubleQuoted : Nat → Text → Option (Text × Text)
  | 0, _ => none
  | fuel + 1, t =>
    match t with
    | [] => none
    | '"' :: rest => some ([], rest)
    | '\\' :: rest => do
      let (found, next) ← escape? rest
      (doubleQuoted fuel next).map fun (body, rest) => (found ++ body, rest)
    | c :: rest =>
      if isGap [c] then do
        let (gap, next) ← quotedGap? (c :: rest)
        (doubleQuoted fuel next).map fun (body, rest) => (gap ++ body, rest)
      else (doubleQuoted fuel rest).map fun (body, rest) => (c :: body, rest)

inductive Chomping
  | strip
  | clip
  | keep

structure BlockStyle where
  folded : Bool
  chomping : Chomping
  increment : Option Nat

private def chomping? : Char → Option Chomping
  | '+' => some .keep
  | '-' => some .strip
  | _ => none

private def increment? (c : Char) : Option Nat :=
  if '1' ≤ c ∧ c ≤ '9' then some (c.toNat - '0'.toNat) else none

private def blockStart? (t : Text) : Option Text :=
  let next := t.dropWhile (· = ' ')
  match if next.head? = some '#' then next.dropWhile (· ≠ '\n') else next with
  | [] => some []
  | '\n' :: rest => some rest
  | _ => none

/-- The style that is written behind the sign of a block, and the first line. -/
private def blockStyle? (folded : Bool) (t : Text) : Option (BlockStyle × Text) :=
  let (signs, rest) := t.span fun c => !isGap [c]
  let style : Option BlockStyle := match signs with
    | [] => some ⟨folded, .clip, none⟩
    | [a] =>
      match chomping? a, increment? a with
      | some chomping, _ => some ⟨folded, chomping, none⟩
      | none, some n => some ⟨folded, .clip, some n⟩
      | none, none => none
    | [a, b] =>
      match chomping? a, increment? a, chomping? b, increment? b with
      | some chomping, _, _, some n => some ⟨folded, chomping, some n⟩
      | _, some n, some chomping, _ => some ⟨folded, chomping, some n⟩
      | _, _, _, _ => none
    | _ => none
  style.bind fun style => (blockStart? rest).map fun first => (style, first)

/-- The deepest indentation of the blank lines at the start and of the line behind them. -/
private def deepestIndent : Nat → Text → Nat
  | 0, _ => 0
  | fuel + 1, t =>
    let column := (t.takeWhile (· = ' ')).length
    match t.dropWhile (· = ' ') with
    | '\n' :: rest => max column (deepestIndent fuel rest)
    | _ => column

/-- Leaves out lines with no more than `indent` spaces. Answers with their number, and with the next
line; `none` in its place if that is not indented by `indent`. -/
private def blockGap (indent : Nat) : Nat → Text → Nat × Option Text × Text
  | 0, t => (0, none, t)
  | fuel + 1, t =>
    let column := min indent (t.takeWhile (· = ' ')).length
    match t.drop column with
    | '\n' :: rest =>
      let (n, line, rest) := blockGap indent fuel rest
      (n + 1, line, rest)
    | [] => (0, none, t)
    | line => (0, if column = indent then some line else none, t)

private def blockLines (style : BlockStyle) (indent : Nat) : Nat → Text → Text × Text
  | 0, line => ([], line)
  | fuel + 1, line =>
    let (content, rest) := line.span (· ≠ '\n')
    let ended := rest ≠ []
    let (blank, next, behind) := blockGap indent fuel (rest.drop 1)
    match next with
    | some next =>
      let isMore (t : Text) : Bool := t.head? = some ' ' || t.head? = some '\t'
      let gap :=
        if style.folded && !isMore line && !isMore next then
          if blank = 0 then [' '] else List.replicate blank '\n'
        else List.replicate (blank + 1) '\n'
      let (more, rest) := blockLines style indent fuel next
      (content ++ gap ++ more, rest)
    | none =>
      let ending := if ended then ['\n'] else []
      (content ++
        match style.chomping with
        | .strip => []
        | .clip => ending
        | .keep => ending ++ List.replicate blank '\n', behind)

/-- A block of lines, from its sign on. Its indentation is at least `least`, and is that of its first
line unless it is written. -/
def blockScalar (folded : Bool) (least : Nat) (t : Text) : Option (Text × Text) := do
  let (style, first) ← blockStyle? folded t
  let indent := match style.increment with
    | some n => least + n - 1
    | none => max least (deepestIndent first.length first)
  let (blank, line, rest) := blockGap indent first.length first
  match line with
  | some line =>
    let (body, rest) := blockLines style indent first.length line
    return (List.replicate blank '\n' ++ body, rest)
  | none =>
    return (match style.chomping with
      | .keep => List.replicate blank '\n'
      | _ => [], rest)

end PhotoNaming.Yaml
