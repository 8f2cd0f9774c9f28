import PhotoNaming.CommandLine.Options
import PhotoNaming.Value.Reading

/-!
Reading the arguments of the command line. Each one is an operand or a switch; long names may be cut
short, letters may be joined behind one dash, and a value may be joined to its switch.
-/

namespace PhotoNaming.CommandLine

inductive Departure
  | misused
  | help
  | version
  deriving DecidableEq

def Departure.exitCode : Departure → Nat
  | misused => 2
  | _ => 0

/-- A value that is joined to a switch, and whether an equals sign stands between them. -/
structure JoinedValue where
  behindEquals : Bool
  text : Text
  deriving DecidableEq

inductive Argument
  | separator
  | operand (t : Text)
  | switch (s : Switch) (isLetter : Bool) (value : Option JoinedValue)
  | unknown
  deriving DecidableEq

/-- Whether a text is a minus sign with digits behind it, which may have a point before the last of
them. Such a text is no switch, also at the end of a line. -/
private def isNegativeNumber (t : Text) : Bool :=
  match if t.getLast? = some '\n' then t.dropLast else t with
  | '-' :: digits =>
    let (whole, rest) := digits.span fun c => (Text.digitValue? c).isSome
    match rest with
    | [] => whole ≠ []
    | '.' :: fraction => fraction ≠ [] && fraction.all fun c => (Text.digitValue? c).isSome
    | _ => false
  | _ => false

private def switchOfLetter? (c : Char) : Option Switch :=
  Switch.all.find? fun s => s.letter? = some c

private def splitValue (t : Text) : Text × Option JoinedValue :=
  match Text.cutAt? '=' t with
  | some (name, value) => (name, some ⟨true, value⟩)
  | none => (t, none)

private def unnamed (t : Text) : Argument :=
  if isNegativeNumber t ∨ t.contains ' ' then .operand t else .unknown

/-- An argument with two dashes. The name may be cut short as long as it fits one switch only. -/
private def ofLongName (t : Text) : Except Departure Argument :=
  let (name, value) := splitValue t
  match Switch.all.find? fun s => "--".toList ++ s.longName = t with
  | some s => .ok (.switch s false none)
  | none =>
    match Switch.all.find? fun s => "--".toList ++ s.longName = name with
    | some s => .ok (.switch s false value)
    | none =>
      match Switch.all.filter fun s => name.isPrefixOf ("--".toList ++ s.longName) with
      | [] => .ok (unnamed t)
      | [s] => .ok (.switch s false value)
      | _ => .error .misused

private def ofLetter (c : Char) (rest : Text) : Argument :=
  match switchOfLetter? c, rest with
  | some s, [] => .switch s true none
  | some s, '=' :: value => .switch s true (some ⟨true, value⟩)
  | some s, value => .switch s true (some ⟨false, value⟩)
  | none, _ => unnamed ('-' :: c :: rest)

private def argument : Text → Except Departure Argument
  | '-' :: '-' :: rest => ofLongName ('-' :: '-' :: rest)
  | '-' :: c :: rest => .ok (ofLetter c rest)
  | t => .ok (.operand t)

/-- What the arguments are, each by itself. Two dashes alone part the operands from all else. -/
private def classified : List Text → Except Departure (List Argument)
  | [] => .ok []
  | t :: rest =>
    if t = ['-', '-'] then .ok (.separator :: rest.map .operand)
    else do
      let first ← argument t
      return first :: (← classified rest)

/-- The switches that one argument asks for, the last of which may wait for its value in the next
argument, and whether it ends with an unknown letter. -/
private structure Request where
  uses : List (Switch × Text)
  waiting : Option Switch
  unknown : Bool

private def Request.behind (s : Switch) (r : Request) : Request :=
  { r with uses := (s, []) :: r.uses }

private def requestAlone (s : Switch) : Request :=
  if s.takesValue then ⟨[], some s, false⟩ else ⟨[(s, [])], none, false⟩

private def requestOf (s : Switch) (isLetter behindEquals : Bool) :
    Text → Except Departure Request
  | [] => if s.takesValue then .ok ⟨[(s, [])], none, false⟩ else .error .misused
  | c :: rest =>
    if s.takesValue then .ok ⟨[(s, c :: rest)], none, false⟩
    else if !isLetter ∨ behindEquals ∨ c = '-' then .error .misused
    else
      match switchOfLetter? c, rest with
      | none, _ => .ok ⟨[(s, [])], none, true⟩
      | some next, [] => .ok ((requestAlone next).behind s)
      | some next, '=' :: value => (requestOf next true true value).map (Request.behind s)
      | some next, more => (requestOf next true false more).map (Request.behind s)

private def request (s : Switch) (isLetter : Bool) : Option JoinedValue → Except Departure Request
  | some value => requestOf s isLetter value.behindEquals value.text
  | none => .ok (requestAlone s)

private def used (o : Options) (s : Switch) (value : Text) : Except Departure Options :=
  match s with
  | .help => .error .help
  | .version => .error .version
  | .config => .ok { o with config := some value }
  | .directoryPattern => .ok { o with directoryPattern := some value }
  | .filePattern => .ok { o with filePattern := some value }
  | .workers =>
    match Reading.integer value with
    | .ok n => .ok { o with workers := some n }
    | .error _ => .error .misused
  | .scanOnly => .ok { o with scanOnly := true }
  | .recursive => .ok { o with recursive := true }
  | .showProperties => .ok { o with showProperties := true }
  | .move => .ok { o with move := true }
  | .showStatistics => .ok { o with showStatistics := true }
  | .verbose => .ok { o with verbose := true }
  | .codes => .ok { o with codes := true }

/-- How many operands have been taken. Both have to stand together. -/
private inductive Operands
  | none
  | source
  | both
  | closed

/-- Reads arguments. `excess` tells whether one of those before is of no use. -/
private def optionsFrom (o : Options) (taken : Operands) (excess : Bool) :
    List Argument → Except Departure Options
  | [] => if excess then .error .misused else .ok o
  | .separator :: rest =>
    match taken with
    | .closed => optionsFrom o taken true rest
    | _ => optionsFrom o taken excess rest
  | .operand t :: rest =>
    match taken with
    | .none => optionsFrom { o with source := some t } .source excess rest
    | .source =>
      optionsFrom { o with target := if t = ['-', '-'] then .none else some t } .both excess rest
    | _ => optionsFrom o .closed true rest
  | .unknown :: rest =>
    optionsFrom o (match taken with | .none => .none | _ => .closed) true rest
  | .switch s isLetter value :: rest => do
    let taken := match taken with
      | .none => Operands.none
      | _ => .closed
    let r ← request s isLetter value
    match r.waiting, rest with
    | none, rest =>
      let o ← r.uses.foldlM (fun o (s, value) => used o s value) o
      optionsFrom o taken (excess || r.unknown) rest
    | some s, .operand value :: rest =>
      let o ← (r.uses ++ [(s, value)]).foldlM (fun o (s, value) => used o s value) o
      optionsFrom o taken excess rest
    | some _, _ => .error .misused

def read (arguments : List Text) : Except Departure Options :=
  (classified arguments).bind (optionsFrom .none .none false)

end PhotoNaming.CommandLine
