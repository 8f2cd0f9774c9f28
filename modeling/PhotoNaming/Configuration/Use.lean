import PhotoNaming.Configuration.Basic
import PhotoNaming.Pattern.Compiled
import PhotoNaming.FileTree.Basic
import PhotoNaming.Journal

/-!
What the settings of a configuration come to when they are used: paths, patterns, the number of
threads and the level of the journal.
-/

namespace PhotoNaming.Configuration

/-- A path as files are asked for: an integer is the number of an open file, which is never a photo
or a directory, and other settings but texts cannot be asked for. -/
def path? (s : Setting) : Except SettingFault (Option Text) :=
  match s with
  | .plain (.text t) => .ok (some t)
  | .plain (.flag _) | .plain (.number (.integer _)) => .ok none
  | s => .error (.notPath s)

inductive TargetFault
  | notFound (target : Setting)
  | setting (fault : SettingFault)

def TargetFault.message : TargetFault → Text
  | .notFound target => "Target directory not found: ".toList ++ target.fullText
  | .setting fault => fault.message

def ownDirectory (tree : FileTree) (source : Setting) : Except TargetFault Text := do
  match ← (path? source).mapError .setting with
  | some path =>
    return if tree.isDirectory path then path else Path.directory (tree.absolute path)
  | none => .error (.setting (.notFileName source))

/-- The directory for new files: the target, or the directory of the source. -/
def targetDirectory (c : Configuration) (tree : FileTree) : Except TargetFault Text := do
  if c.target.isOn then
    match ← (path? c.target).mapError .setting with
    | some path => if tree.isDirectory path then return path else .error (.notFound c.target)
    | none => .error (.notFound c.target)
  else ownDirectory tree c.source

/-- A pattern. What is off counts as the empty one. -/
private def patternText (s : Setting) (fault : Setting → SettingFault) : Except SettingFault Text :=
  if s.isOn then
    match s with
    | .plain (.text t) => .ok t
    | s => .error (fault s)
  else .ok []

def compiledFilePattern (c : Configuration) : Except SettingFault Pattern :=
  (patternText c.filePattern .notPattern).map Pattern.compile

def compiledLevels (c : Configuration) : Except SettingFault (List Pattern) :=
  (patternText c.directoryPattern .notLevels).map Pattern.compileLevels

def threads (c : Configuration) : Except SettingFault Number :=
  match c.workers with
  | .plain p =>
    match p.number? with
    | some x => .ok (if (Number.integer 1).Before x then x else .integer 1)
    | none => .error (.notCount c.workers)
  | s => .error (.notCount s)

private def thresholds : List (Text × Nat) :=
  [("CRITICAL", 50), ("FATAL", 50), ("ERROR", 40), ("WARN", 30), ("WARNING", 30), ("INFO", 20),
    ("DEBUG", 10), ("NOTSET", 0)]

/-- The capital of a letter; beside the plain ones only two have one that names of levels use. -/
private def capital (c : Char) : Char :=
  if c = 'ı' then 'I' else if c = 'ſ' then 'S' else c.toUpper

/-- The least severity that a level lets pass; unknown names count as `INFO`. -/
def threshold (c : Configuration) : Except SettingFault Nat :=
  match c.logLevel with
  | .plain (.text name) => .ok ((thresholds.lookup (name.map capital)).getD 20)
  | s => .error (.notLevel s)

def logPath? (c : Configuration) : Except SettingFault (Option Text) :=
  if c.logFile.isOn then
    match c.logFile with
    | .plain (.text path) => .ok (some path)
    | s => .error (.notFileName s)
  else .ok none

end PhotoNaming.Configuration
