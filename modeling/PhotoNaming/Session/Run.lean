import PhotoNaming.Session.Basic
import PhotoNaming.Configuration.Use

/-!
Running a configuration: the photos are found and scanned, their names are planned, and then the plan
is shown or carried out.
-/

namespace PhotoNaming

namespace Session

structure Preparation where
  plan : Plan
  tally : Tally

def sources (tree : FileTree) (c : Configuration) : Stage (List Text) :=
  if !c.source.isOn then
    .refuse
      "No source given. Pass a file or directory, or set source in the config file."
  else
    match Configuration.path? c.source with
    | .error fault => .stop (.setting fault)
    | .ok none => .refuse ("Source not found: ".toList ++ c.source.fullText)
    | .ok (some source) =>
      let found := Source.collect tree source c.extensions c.recursive.isOn c.excludedNames
      (Stage.log found.entries).bind fun _ =>
        Stage.ofExcept (fun fault => .refuse fault.message) found.result

def target (tree : FileTree) (c : Configuration) : Stage Text :=
  Stage.ofExcept (fun fault => match fault with
    | .notFound t => .refuse (Configuration.TargetFault.notFound t).message
    | .setting fault => .stop (.setting fault)) (c.targetDirectory tree)

private def optionLine (name : String) (s : Setting) : Text :=
  "  ".toList ++ Text.spacePadded 40 (name.toList ++ [':']) ++ s.fullText

def optionLines (c : Configuration) (target : Text) : List Text :=
  ["  Running with options:",
    optionLine "scan_only" c.scanOnly,
    optionLine "recursive" c.recursive,
    optionLine "show_properties" c.showProperties,
    optionLine "show_statistics" c.showStatistics,
    optionLine "move" c.move,
    optionLine "file_pattern" c.filePattern,
    optionLine "directory_pattern" c.directoryPattern,
    optionLine "source" c.source,
    optionLine "target" (.text target),
    ""]

def scan (catalog : Catalog) (tree : FileTree) (course : Scan.Course) (workers : Number)
    (paths : List Text) : Stage (List Record × Tally) :=
  let outcome := Scan.run tree catalog course workers paths
  (Stage.log outcome.entries).bind fun _ =>
    match outcome.fault with
    | none => .pure (outcome.records, outcome.tally catalog)
    | some fault =>
      if fault.isSystemFault then .terminate fault.message else .stop (.scan fault)

private def warned (catalog : Catalog) (patterns : List Pattern) : Stage Unit :=
  .log (patterns.flatMap (·.warnings catalog))

/-- All that comes before the plan is shown or carried out. It leaves the files as they are. -/
def prepare (catalog : Catalog) (tree : FileTree) (course : Scan.Course) (c : Configuration) :
    Stage Preparation := do
  let paths ← sources tree c
  let directory ← target tree c
  let pattern ← Stage.setting c.compiledFilePattern
  warned catalog [pattern]
  let levels ← Stage.setting c.compiledLevels
  warned catalog levels
  Stage.write (optionLines c directory)
  Stage.write ["  Found ".toList ++ Text.ofNat paths.length ++
    " files to process. Parsing properties...".toList]
  let workers ← Stage.setting c.threads
  let (records, tally) ← scan catalog tree course workers paths
  Stage.write (if c.showProperties.isOn then records.map (·.text) else [])
  Stage.log [⟨.info, .session, "Scan completed in ".toList ++ course.elapsed⟩]
  Stage.write ["  Building names..."]
  let plan := Plan.ofRecords tree records pattern levels directory c.extensions
  Stage.log plan.entries
  return { plan, tally }

/-- A line with a photo's present path and its new one. -/
def pairLine (source target : Text) : Text := source ++ " => ".toList ++ target

def transferEnd : TransferFault → Stage Unit
  | .file fault => if fault.isSystemFault then .terminate fault.message else .stop (.file fault)
  | fault => .terminate fault.message

def statistics (catalog : Catalog) (c : Configuration) (tally : Tally) : List Shown :=
  if c.showStatistics.isOn then
    [.text [], .entry tally.reportEntry, .text (tally.report catalog)]
  else []

def preview (catalog : Catalog) (tree : FileTree) (c : Configuration) (p : Preparation) : Session where
  shown := (p.plan.files.map fun f => .text (pairLine f.source f.target)) ++
    statistics catalog c p.tally
  tree := tree
  done := []
  ending := .exit 0

def carryOut (catalog : Catalog) (tree : FileTree) (c : Configuration) (p : Preparation) : Session :=
  let transfer := Transfer.ofPlan c.move.isOn tree p.plan
  let entries := transfer.entries.map Shown.entry
  match transfer.fault with
  | some fault =>
    let stage := transferEnd fault
    { shown := entries ++ stage.shown
      tree := transfer.tree
      done := transfer.done
      ending := match stage.result with
        | .error ending => ending
        | .ok _ => .exit 1 }
  | none =>
    { shown := entries ++ (transfer.done.map fun (source, target) =>
        .text (pairLine source target)) ++ statistics catalog c p.tally
      tree := transfer.tree
      done := transfer.done
      ending := .exit 0 }

/-- Runs a configuration on the files of a tree. -/
def run (catalog : Catalog) (tree : FileTree) (course : Scan.Course) (c : Configuration) : Session :=
  let preparation := prepare catalog tree course c
  match preparation.result with
  | .error ending => ⟨preparation.shown, tree, [], ending⟩
  | .ok p =>
    (if c.scanOnly.isOn then preview catalog tree c p else carryOut catalog tree c p).behind
      preparation.shown

end Session

end PhotoNaming
