import PhotoNaming.Text.Basic

/-!
The options of the command line: their names, and what they come to.
-/

namespace PhotoNaming

def programTitle : Text := "SnapName"

def programVersion : Text := "0.3.0"

namespace CommandLine

inductive Switch
  | help
  | config
  | scanOnly
  | recursive
  | showProperties
  | move
  | showStatistics
  | directoryPattern
  | filePattern
  | workers
  | verbose
  | codes
  | version
  deriving DecidableEq

namespace Switch

def all : List Switch :=
  [help, config, scanOnly, recursive, showProperties, move, showStatistics, directoryPattern,
    filePattern, workers, verbose, codes, version]

def longName : Switch → Text
  | help => "help"
  | config => "config"
  | scanOnly => "scan-only"
  | recursive => "recurse-subdirectories"
  | showProperties => "properties-display"
  | move => "move-file"
  | showStatistics => "info-statistics"
  | directoryPattern => "directory-pattern"
  | filePattern => "file-pattern"
  | workers => "workers"
  | verbose => "verbose"
  | codes => "codes"
  | version => "version"

def letter? : Switch → Option Char
  | help => some 'h'
  | config => some 'c'
  | scanOnly => some 's'
  | recursive => some 'r'
  | showProperties => some 'p'
  | move => some 'm'
  | showStatistics => some 'i'
  | directoryPattern => some 'd'
  | filePattern => some 'f'
  | verbose => some 'v'
  | _ => none

def takesValue : Switch → Bool
  | config | directoryPattern | filePattern | workers => true
  | _ => false

def purpose : Switch → Text
  | help => "Show this help and leave"
  | config => "Path to a YAML config file"
  | scanOnly => "Scan only. Do not move or copy files"
  | recursive => "Recurse subdirectories"
  | showProperties => "Show properties for each file"
  | move => "Move the file instead of copying"
  | showStatistics => "Show statistics"
  | directoryPattern => "Directory naming patterns, one per level, separated by ';'"
  | filePattern => "File naming pattern"
  | workers => "Number of parallel scan threads"
  | verbose => "Enable verbose (DEBUG) logging"
  | codes => "List the codes usable in naming patterns"
  | version => "Show the version and leave"

end Switch

/-- What the command line asks for. What it does not mention is left to the configuration. -/
structure Options where
  source : Option Text
  target : Option Text
  config : Option Text
  directoryPattern : Option Text
  filePattern : Option Text
  workers : Option Int
  scanOnly : Bool
  recursive : Bool
  showProperties : Bool
  move : Bool
  showStatistics : Bool
  verbose : Bool
  codes : Bool
  deriving DecidableEq

def Options.none : Options where
  source := .none
  target := .none
  config := .none
  directoryPattern := .none
  filePattern := .none
  workers := .none
  scanOnly := false
  recursive := false
  showProperties := false
  move := false
  showStatistics := false
  verbose := false
  codes := false

private def helpLine (s : Switch) : Text :=
  let letter := match s.letter? with
    | some c => ", -".toList ++ [c]
    | none => []
  "  ".toList ++ Text.spacePadded 32 ("--".toList ++ s.longName ++ letter) ++ s.purpose

def help : Text :=
  Text.joinWith ['\n']
    ("usage: snapname [options] [source] [target]".toList :: [] :: Switch.all.map helpLine)

end CommandLine

end PhotoNaming
