import PhotoNaming.CommandLine.Options
import PhotoNaming.FileName
import PhotoNaming.Setting.Fault
import PhotoNaming.Source.Collection

/-!
Configurations: the settings of a run, taken from a mapping and from the command line. Most of them
are kept as they are given, and are looked at when they are used.
-/

namespace PhotoNaming

/-- The settings of a run. The names of excluded directories may be any plain settings, of which
only texts can be the name of one. -/
structure Configuration where
  source : Setting
  target : Setting
  recursive : Setting
  scanOnly : Setting
  move : Setting
  showProperties : Setting
  showStatistics : Setting
  filePattern : Setting
  directoryPattern : Setting
  workers : Setting
  logLevel : Setting
  logFile : Setting
  extensions : List Text
  excluded : List Plain
  others : List (Plain × Setting)

namespace Configuration

def standardFilePattern : Text := "$et_$is_$fl_Image"

def standardWorkers : Int := 4

def knownKeys : List Text :=
  ["source", "target", "recursive", "scan_only", "move", "show_properties", "show_statistics",
    "file_pattern", "directory_pattern", "workers", "log_level", "log_file", "extensions",
    "exclude_dirs"]

private def find? (entries : List (Plain × Setting)) (key : String) : Option Setting :=
  (entries.find? (·.1 = .text key.toList)).map (·.2)

/-- The items of a setting: those of a list, the characters of a text, or the keys of a mapping. -/
private def items : Setting → Except SettingFault (List Setting)
  | .list items => .ok items
  | .plain (.text t) => .ok (t.map fun c => .text [c])
  | .mapping entries => .ok (entries.map fun (key, _) => .plain key)
  | s => .error (.notItems s)

/-- The items of a setting that is on, or else the standard ones. -/
private def itemsOr (standard : List Text) : Option Setting → Except SettingFault (List Setting)
  | some s => if s.isOn then items s else .ok (standard.map .text)
  | none => .ok (standard.map .text)

private def extension : Setting → Except SettingFault Text
  | .plain (.text t) => .ok t
  | s => .error (.notExtension s)

private def name : Setting → Except SettingFault Plain
  | .plain p => .ok p
  | s => .error (.notName s)

private def distinct (names : List Plain) : List Plain :=
  names.foldl (fun done p => if done.any (·.isSameKey p) then done else done ++ [p]) []

/-- The configuration that a mapping stands for, with standard settings for what it leaves out. -/
def ofEntries (entries : List (Plain × Setting)) : Except SettingFault Configuration := do
  let extensions ← (← itemsOr FileName.standardExtensions (find? entries "extensions")).mapM extension
  let excluded ← (← itemsOr Source.standardExcluded (find? entries "exclude_dirs")).mapM name
  let given (key : String) (standard : Setting) : Setting := (find? entries key).getD standard
  return {
    source := given "source" .nothing
    target := given "target" .nothing
    recursive := given "recursive" (.flag false)
    scanOnly := given "scan_only" (.flag false)
    move := given "move" (.flag false)
    showProperties := given "show_properties" (.flag false)
    showStatistics := given "show_statistics" (.flag false)
    filePattern := given "file_pattern" (.text standardFilePattern)
    directoryPattern := given "directory_pattern" .nothing
    workers := given "workers" (.plain (.number (.integer standardWorkers)))
    logLevel := given "log_level" (.text "INFO")
    logFile := given "log_file" .nothing
    extensions := FileName.normalExtensions extensions
    excluded := distinct excluded
    others := entries.filter fun (key, _) => !knownKeys.any (key = .text ·) }

/-- The settings with the keys that a run knows, but for extensions and excluded directories. -/
def settings (c : Configuration) : List (Text × Setting) :=
  [("source", c.source), ("target", c.target), ("recursive", c.recursive),
    ("scan_only", c.scanOnly), ("move", c.move), ("show_properties", c.showProperties),
    ("show_statistics", c.showStatistics), ("file_pattern", c.filePattern),
    ("directory_pattern", c.directoryPattern), ("workers", c.workers), ("log_level", c.logLevel),
    ("log_file", c.logFile)]

def excludedNames (c : Configuration) : List Text :=
  c.excluded.filterMap fun
    | .text t => some t
    | _ => none

private def textOr (s : Setting) (given : Option Text) : Setting := (given.map Setting.text).getD s

private def flagOr (s : Setting) (given : Bool) : Setting := if given then .flag true else s

/-- The configuration with what the command line asks for in place of its own settings. -/
def withOptions (c : Configuration) (o : CommandLine.Options) : Configuration :=
  { c with
    source := textOr c.source o.source
    target := textOr c.target o.target
    scanOnly := flagOr c.scanOnly o.scanOnly
    recursive := flagOr c.recursive o.recursive
    showProperties := flagOr c.showProperties o.showProperties
    move := flagOr c.move o.move
    showStatistics := flagOr c.showStatistics o.showStatistics
    directoryPattern := textOr c.directoryPattern o.directoryPattern
    filePattern := textOr c.filePattern o.filePattern
    workers := (o.workers.map fun n => .plain (.number (.integer n))).getD c.workers
    logLevel := if o.verbose then .text "DEBUG" else c.logLevel }

end Configuration

end PhotoNaming
