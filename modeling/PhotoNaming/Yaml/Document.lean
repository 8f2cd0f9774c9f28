import PhotoNaming.Yaml.Plain
import PhotoNaming.Yaml.Token

/-!
The setting that a YAML text holds, put together from its tokens.
-/

namespace PhotoNaming.Yaml

/-- Adds an entry to a mapping. Only plain settings can be keys. -/
private def pairOf? (entries : List (Plain × Setting)) (key value : Setting) :
    Option (List (Plain × Setting)) :=
  match key with
  | .plain p => some (Setting.putEntry entries p value)
  | _ => none

private def isLeftOut (marks : List Token) : List Token → Bool
  | [] => false
  | token :: _ => marks.contains token

mutual

/-- Reads one setting. Only within a block may blocks begin, and only behind a key may items stand
without a block of their own. -/
private def node (fuel : Nat) (block bare : Bool) (tokens : List Token) :
    Option (Setting × List Token) :=
  match fuel with
  | 0 => none
  | fuel + 1 =>
    match tokens with
    | .scalar text plain :: rest =>
      if plain then (plain? text).map fun p => (.plain p, rest) else some (.text text, rest)
    | .flowSequenceStart :: rest => flowItems fuel [] rest
    | .flowMappingStart :: rest => flowEntries fuel true [] rest
    | .sequenceStart :: rest => if block then blockItems fuel [] rest else none
    | .mappingStart :: rest => if block then blockEntries fuel [] rest else none
    | .blockEntry :: rest => if bare then bareItems fuel [] (.blockEntry :: rest) else none
    | _ => none

private def part (fuel : Nat) (block bare : Bool) (marks : List Token) (tokens : List Token) :
    Option (Setting × List Token) :=
  match fuel with
  | 0 => none
  | fuel + 1 =>
    if isLeftOut marks tokens then some (.nothing, tokens) else node fuel block bare tokens

private def blockItems (fuel : Nat) (done : List Setting) (tokens : List Token) :
    Option (Setting × List Token) :=
  match fuel with
  | 0 => none
  | fuel + 1 =>
    match tokens with
    | .blockEntry :: rest => do
      let (item, rest) ← part fuel true false [.blockEntry, .blockEnd] rest
      blockItems fuel (done ++ [item]) rest
    | .blockEnd :: rest => some (.list done, rest)
    | _ => none

private def bareItems (fuel : Nat) (done : List Setting) (tokens : List Token) :
    Option (Setting × List Token) :=
  match fuel with
  | 0 => none
  | fuel + 1 =>
    match tokens with
    | .blockEntry :: rest => do
      let (item, rest) ← part fuel true false [.blockEntry, .key, .value, .blockEnd] rest
      bareItems fuel (done ++ [item]) rest
    | rest => some (.list done, rest)

private def blockEntries (fuel : Nat) (done : List (Plain × Setting)) (tokens : List Token) :
    Option (Setting × List Token) :=
  match fuel with
  | 0 => none
  | fuel + 1 =>
    match tokens with
    | .key :: rest => do
      let (key, rest) ← part fuel true true [.key, .value, .blockEnd] rest
      let (value, rest) ← match rest with
        | .value :: rest => part fuel true true [.key, .value, .blockEnd] rest
        | rest => some (.nothing, rest)
      blockEntries fuel (← pairOf? done key value) rest
    | .blockEnd :: rest => some (.mapping done, rest)
    | _ => none

private def flowValue (fuel : Nat) (closing : Token) (tokens : List Token) :
    Option (Setting × List Token) :=
  match fuel with
  | 0 => none
  | fuel + 1 =>
    match tokens with
    | .value :: rest => part fuel false false [.flowEntry, closing] rest
    | rest => some (.nothing, rest)

/-- Reads items up to the closing bracket. An item with a colon is a mapping of its own. -/
private def flowItems (fuel : Nat) (done : List Setting) (tokens : List Token) :
    Option (Setting × List Token) :=
  match fuel with
  | 0 => none
  | fuel + 1 =>
    let behind (item : Setting) (rest : List Token) : Option (Setting × List Token) :=
      match rest with
      | .flowEntry :: rest => flowItems fuel (done ++ [item]) rest
      | .flowSequenceEnd :: rest => some (.list (done ++ [item]), rest)
      | _ => none
    match tokens with
    | .flowSequenceEnd :: rest => some (.list done, rest)
    | .key :: rest => do
      let (key, rest) ← part fuel false false [.value, .flowEntry, .flowSequenceEnd] rest
      let (value, rest) ← flowValue fuel .flowSequenceEnd rest
      behind (.mapping (← pairOf? [] key value)) rest
    | rest => do
      let (item, rest) ← node fuel false false rest
      behind item rest

/-- Reads entries up to the closing brace. A key may stand without a value. -/
private def flowEntries (fuel : Nat) (first : Bool) (done : List (Plain × Setting))
    (tokens : List Token) : Option (Setting × List Token) :=
  match fuel with
  | 0 => none
  | fuel + 1 =>
    match tokens with
    | .flowMappingEnd :: rest => some (.mapping done, rest)
    | tokens => do
      let tokens ← match first, tokens with
        | true, tokens => some tokens
        | false, .flowEntry :: rest => some rest
        | false, _ => none
      match tokens with
      | .flowMappingEnd :: rest => some (.mapping done, rest)
      | .key :: rest => do
        let (key, rest) ← part fuel false false [.value, .flowEntry, .flowMappingEnd] rest
        let (value, rest) ← flowValue fuel .flowMappingEnd rest
        flowEntries fuel false (← pairOf? done key value) rest
      | rest => do
        let (key, rest) ← node fuel false false rest
        flowEntries fuel false (← pairOf? done key .nothing) rest

end

/-- Reads the only document of a text. Each token takes less than four calls. -/
private def document? (tokens : List Token) : Option Setting := do
  let fuel := 4 * tokens.length + 4
  let (found, rest) ← match tokens with
    | [] => some (.nothing, [])
    | [.documentStart] => some (.nothing, [])
    | .documentStart :: rest => part fuel true false [.documentStart, .documentEnd] rest
    | tokens => node fuel true false tokens
  if rest.all (· = .documentEnd) then some found else none

private def isAllowed (c : Char) : Bool :=
  c = '\t' || c = '\n' || (' ' ≤ c && c ≤ '~') ||
    ('\xa0' ≤ c && c ≠ '\ufffe' && c ≠ '\uffff')

private def withLineFeeds : Text → Text
  | [] => []
  | '\r' :: '\n' :: rest => '\n' :: withLineFeeds rest
  | '\r' :: rest => '\n' :: withLineFeeds rest
  | '\x85' :: rest => '\n' :: withLineFeeds rest
  | c :: rest => c :: withLineFeeds rest

private def withoutOrderMark : Text → Text
  | '\ufeff' :: rest => rest
  | t => t

/-- The setting that a text holds; `none` if the text is malformed. An empty text holds nothing. -/
def read? (t : Text) : Option Setting :=
  let lines := withoutOrderMark (withLineFeeds t)
  if lines.all isAllowed then (tokens? lines).bind document? else none

end PhotoNaming.Yaml
