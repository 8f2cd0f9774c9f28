import PhotoNaming.Yaml.Scalar

/-!
The tokens of a YAML text. Indentation opens and closes blocks, and a colon makes a key of what
stands before it on its line. Anchors, aliases, tags and directives are not known.
-/

namespace PhotoNaming.Yaml

inductive Token
  | documentStart
  | documentEnd
  | sequenceStart
  | mappingStart
  | blockEnd
  | flowSequenceStart
  | flowSequenceEnd
  | flowMappingStart
  | flowMappingEnd
  | blockEntry
  | flowEntry
  | key
  | value
  | scalar (text : Text) (plain : Bool)
  deriving DecidableEq

/-- A place in a text: what is left of it, and where that begins. -/
structure Cursor where
  rest : Text
  line : Nat
  column : Nat
  offset : Nat

namespace Cursor

def start (t : Text) : Cursor := ⟨t, 0, 0, 0⟩

def advance : Nat → Cursor → Cursor
  | 0, place => place
  | n + 1, place =>
    match place.rest with
    | [] => place
    | '\n' :: rest => advance n ⟨rest, place.line + 1, 0, place.offset + 1⟩
    | _ :: rest => advance n ⟨rest, place.line, place.column + 1, place.offset + 1⟩

def upTo (rest : Text) (place : Cursor) : Cursor :=
  place.advance (place.rest.length - rest.length)

end Cursor

/-- A place among the tokens where a colon may put a key. It has to, if what stands there cannot be
anything else. -/
structure PossibleKey where
  depth : Nat
  position : Nat
  required : Bool
  place : Cursor

/-- How far the reading of tokens is: the indentations of the open blocks with the innermost one
first, the number of open brackets, and what may become a key. -/
structure Scan where
  place : Cursor
  depth : Nat
  indents : List Nat
  keyAllowed : Bool
  keys : List PossibleKey
  tokens : List Token

namespace Scan

def start (t : Text) : Scan := ⟨.start t, 0, [], true, [], []⟩

def maxKeyLength : Nat := 1024

private def emit (s : Scan) (token : Token) : Scan := { s with tokens := s.tokens ++ [token] }

private def moved (s : Scan) (n : Nat) : Scan := { s with place := s.place.advance n }

private def isDeeper (s : Scan) (column : Nat) : Bool :=
  match s.indents with
  | [] => true
  | indent :: _ => indent < column

private def innerIndent (s : Scan) : Nat :=
  match s.indents with
  | [] => 0
  | indent :: _ => indent + 1

private def unwound (s : Scan) (column : Nat) : Scan :=
  if 0 < s.depth then s
  else
    { s with
      indents := s.indents.dropWhile (column < ·)
      tokens := s.tokens ++ List.replicate (s.indents.takeWhile (column < ·)).length .blockEnd }

private def closed (s : Scan) : Scan :=
  if 0 < s.depth then s
  else { s with indents := [], tokens := s.tokens ++ List.replicate s.indents.length .blockEnd }

private def opened (s : Scan) (column : Nat) (token : Token) : Scan :=
  if s.isDeeper column then { s.emit token with indents := column :: s.indents } else s

/-- Gives up the possible key of the present brackets; `none` if it has to be one. -/
private def withoutKey (s : Scan) : Option Scan :=
  if s.keys.any fun key => key.depth = s.depth && key.required then none
  else some { s with keys := s.keys.filter (·.depth ≠ s.depth) }

/-- Gives up the possible keys of other lines, and those that are too long. -/
private def withoutStaleKeys (s : Scan) : Option Scan :=
  let isFresh (key : PossibleKey) : Bool :=
    key.place.line = s.place.line && s.place.offset - key.place.offset ≤ maxKeyLength
  if s.keys.any fun key => !isFresh key && key.required then none
  else some { s with keys := s.keys.filter isFresh }

private def withPossibleKey (s : Scan) : Option Scan :=
  if s.keyAllowed then do
    let s ← s.withoutKey
    let required := s.depth = 0 && s.indents.head? = some s.place.column
    return { s with keys := ⟨s.depth, s.tokens.length, required, s.place⟩ :: s.keys }
  else some s

/-- Leaves out blanks, comments and the ends of lines. Answers also whether a line ended. -/
private def skipped (comment : Bool) : Text → Text × Bool
  | [] => ([], false)
  | '\n' :: rest => ((skipped false rest).1, true)
  | c :: rest =>
    if comment then skipped true rest
    else if c = ' ' then skipped false rest
    else if c = '#' then skipped true rest
    else (c :: rest, false)

private def settled (s : Scan) : Option Scan := do
  let (rest, crossed) := skipped false s.place.rest
  let s := { s with
    place := s.place.upTo rest
    keyAllowed := s.keyAllowed || (crossed && s.depth = 0) }
  let s ← s.withoutStaleKeys
  return s.unwound s.place.column

private def documentMark (s : Scan) (token : Token) : Option Scan := do
  let s ← s.closed.withoutKey
  return { (s.emit token).moved 3 with keyAllowed := false }

private def flowStart (s : Scan) (token : Token) : Option Scan := do
  let s ← s.withPossibleKey
  return { (s.emit token).moved 1 with depth := s.depth + 1, keyAllowed := true }

private def flowEnd (s : Scan) (token : Token) : Option Scan := do
  let s ← s.withoutKey
  return { (s.emit token).moved 1 with depth := s.depth - 1, keyAllowed := false }

private def flowEntry (s : Scan) : Option Scan := do
  let s ← s.withoutKey
  return { (s.emit .flowEntry).moved 1 with keyAllowed := true }

/-- The mark of an item, of a key or of a value: outside of brackets it opens a block. -/
private def blockMark (s : Scan) (block mark : Token) (keyAllowed : Bool) : Option Scan :=
  if s.depth = 0 ∧ !s.keyAllowed then none
  else do
    let s := if s.depth = 0 then s.opened s.place.column block else s
    let s ← s.withoutKey
    return { (s.emit mark).moved 1 with keyAllowed := keyAllowed }

/-- A colon: the possible key becomes one, or the value stands alone. -/
private def valueMark (s : Scan) : Option Scan :=
  match s.keys.find? (·.depth = s.depth) with
  | some key =>
    let block := if s.depth = 0 ∧ s.isDeeper key.place.column then [Token.mappingStart] else []
    let indents := if block = [] then s.indents else key.place.column :: s.indents
    let tokens := s.tokens.take key.position ++ block ++ [.key] ++ s.tokens.drop key.position
    some <|
      { s with
        tokens := tokens ++ [.value]
        indents := indents
        keys := s.keys.filter (·.depth ≠ s.depth)
        keyAllowed := false
        place := s.place.advance 1 }
  | none => s.blockMark .mappingStart .value (s.depth = 0)

private def scalar (s : Scan) (plain : Bool) (found : Text × Text) : Option Scan := do
  let s ← s.withPossibleKey
  return { s.emit (.scalar found.1 plain) with
    place := s.place.upTo found.2, keyAllowed := false }

private def block (s : Scan) (folded : Bool) (t : Text) : Option Scan := do
  let s ← s.withoutKey
  let (text, rest) ← blockScalar folded (max 1 s.innerIndent) t
  return { s.emit (.scalar text false) with place := s.place.upTo rest, keyAllowed := true }

private def startsPlain (s : Scan) (c : Char) (rest : Text) : Bool :=
  !(isGap [c] || "-?:,[]\x7b\x7d#&*!|>'\"%@`".toList.contains c) ||
    (!isGap rest && (c = '-' || (s.depth = 0 && (c = '?' || c = ':'))))

private def token (s : Scan) (c : Char) (rest : Text) : Option Scan :=
  let fuel := rest.length + 1
  if s.place.column = 0 ∧ isDocumentMark '-' (c :: rest) then s.documentMark .documentStart
  else if s.place.column = 0 ∧ isDocumentMark '.' (c :: rest) then s.documentMark .documentEnd
  else if c = '[' then s.flowStart .flowSequenceStart
  else if c = '\x7b' then s.flowStart .flowMappingStart
  else if c = ']' then s.flowEnd .flowSequenceEnd
  else if c = '\x7d' then s.flowEnd .flowMappingEnd
  else if c = ',' then s.flowEntry
  else if c = '-' ∧ isGap rest then s.blockMark .sequenceStart .blockEntry true
  else if c = '?' ∧ (0 < s.depth ∨ isGap rest) then s.blockMark .mappingStart .key (s.depth = 0)
  else if c = ':' ∧ (0 < s.depth ∨ isGap rest) then s.valueMark
  else if c = '|' ∧ s.depth = 0 then s.block false rest
  else if c = '>' ∧ s.depth = 0 then s.block true rest
  else if c = '\'' then (singleQuoted fuel rest).bind (s.scalar false)
  else if c = '"' then (doubleQuoted fuel rest).bind (s.scalar false)
  else if s.startsPlain c rest then
    s.scalar true (plainScalar (0 < s.depth) s.innerIndent fuel (c :: rest))
  else none

private def finished : Nat → Scan → Option Scan
  | 0, _ => none
  | fuel + 1, s => do
    let s ← s.settled
    match s.place.rest with
    | [] => s.closed.withoutKey
    | c :: rest => finished fuel (← s.token c rest)

end Scan

/-- The tokens of a text; `none` if it is malformed. Every token has a character of its own, so that
there are enough steps. -/
def tokens? (t : Text) : Option (List Token) :=
  ((Scan.start t).finished (t.length + 1)).map Scan.tokens

end PhotoNaming.Yaml
