import PhotoNaming.Catalog.Standard
import PhotoNaming.CommandLine.Arguments
import PhotoNaming.Session.Run

/-!
The whole program, from the arguments of the command line to its output, its log file and the tree
that it leaves.
-/

namespace PhotoNaming

/-- What comes of a call of the program: its output, a text for each time it writes; what it adds to
its log file, with the path of that; the tree that it leaves; the pairs of paths of the files that
were moved or copied; and how it ends. -/
structure Outcome where
  output : List Text
  log : Option (Text × Text)
  tree : FileTree
  moved : Bool
  done : List (Text × Text)
  ending : Ending

namespace Program

def logged (threshold : Nat) (shown : List Shown) : List Journal.Entry :=
  shown.filterMap fun
    | .entry e => if threshold ≤ e.level.severity then some e else none
    | .text _ => none

def output (clock : Journal.Clock) (threshold : Nat) (shown : List Shown) : List Text :=
  shown.flatMap fun
    | .text t => [t]
    | .entry e => if threshold ≤ e.level.severity then [e.line clock] else []

private def bannerWidth : Nat := 41

private def bannerLine (t : Text) : Text :=
  "  │  ".toList ++ Text.spacePadded (bannerWidth - 2) t ++ ['│']

def banner : List Text :=
  let rule := List.replicate bannerWidth '─'
  ["", "  ┌".toList ++ rule ++ ['┐'], bannerLine (programTitle ++ " v".toList ++ programVersion),
    bannerLine "Photo naming from EXIF metadata", "  └".toList ++ rule ++ ['┘'], ""]

def configPath (tree : FileTree) (path : Text) : Text :=
  Path.join ('/' :: Text.joinWith ['/'] tree.working) path

def configuration (tree : FileTree) (o : CommandLine.Options) : Stage Configuration :=
  let load (result : Except Configuration.LoadFault Configuration) : Stage Configuration :=
    Stage.ofExcept (fun fault => .stop (.load fault)) result
  match o.config with
  | none | some [] => load ((Configuration.ofEntries []).mapError .setting)
  | some path =>
    let full := configPath tree path
    if tree.exists? full then load (Configuration.load tree full)
    else .refuse ("Config file not found: ".toList ++ full)

/-- Where the journal goes beside the standard output, and what it lets pass. -/
structure LogSetup where
  threshold : Nat
  file : Option Text
  tree : FileTree

private def openLog (tree : FileTree) (path : Text) : Except FileFault FileTree :=
  match tree.readFile path with
  | .ok _ => .ok tree
  | .error (.refused .notFound _) =>
    let change := tree.writeFile path (.ofText [] 0)
    match change.fault with
    | some fault => .error fault
    | none => .ok change.tree
  | .error fault => .error fault

def logSetup (tree : FileTree) (c : Configuration) : Stage LogSetup := do
  let threshold ← Stage.setting c.threshold
  match ← Stage.setting c.logPath? with
  | none => return { threshold, file := none, tree }
  | some path =>
    let full := tree.absolute path
    let opened ← Stage.ofExcept (fun fault => .stop (.file fault)) (openLog tree full)
    return { threshold, file := some full, tree := opened }

/-- What is added to the log file, with its path. -/
def logText (clock : Journal.Clock) (setup : LogSetup) (shown : List Shown) :
    Option (Text × Text) :=
  setup.file.map fun path =>
    (path, (logged setup.threshold shown).flatMap fun e => e.line clock ++ ['\n'])

private def withAddition (tree : FileTree) : Option (Text × Text) → FileTree
  | none => tree
  | some (path, addition) =>
    match tree.readFile path with
    | .error _ => tree
    | .ok data =>
      (tree.writeFile path
        { data with
          content := data.content ++ addition
          size := data.size + byteCount addition }).tree

/-- The session of a configuration, the list of codes or the title included. -/
def session (tree : FileTree) (elapsed : Text) (c : Configuration) (codes : Bool) : Session :=
  let catalog := Catalog.standard
  let opening : Journal.Entry :=
    ⟨.debug, .catalog, "Property registry built with ".toList ++ Text.ofNat catalog.size ++
      " codes".toList⟩
  if codes then ⟨[.entry opening, .text catalog.help], tree, [], .exit 0⟩
  else (Session.run catalog tree ⟨elapsed, .inTurn⟩ c).behind (.entry opening :: banner.map .text)

private def ended (clock : Journal.Clock) (tree : FileTree) (shown : List Shown)
    (ending : Ending) : Outcome :=
  ⟨output clock 0 shown, none, tree, false, [], ending⟩

/-- Calls the program with arguments on a tree. -/
def call (clock : Journal.Clock) (tree : FileTree) (arguments : List Text) : Outcome :=
  match CommandLine.read arguments with
  | .error departure =>
    let texts := match departure with
      | .misused => []
      | .help => [CommandLine.help]
      | .version => [programTitle ++ ' ' :: programVersion]
    ⟨texts, none, tree, false, [], .exit departure.exitCode⟩
  | .ok options =>
    let start : Stage (Configuration × LogSetup) := do
      let c ← configuration tree options
      let c := c.withOptions options
      return (c, ← logSetup tree c)
    match start.result with
    | .error ending => ended clock tree start.shown ending
    | .ok (c, setup) =>
      let s := session setup.tree clock.elapsed c options.codes
      let log := logText clock setup s.shown
      ⟨output clock setup.threshold s.shown, log, withAddition s.tree log, c.move.isOn, s.done,
        s.ending⟩

end Program

end PhotoNaming
