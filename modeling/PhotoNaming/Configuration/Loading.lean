import PhotoNaming.Configuration.Basic
import PhotoNaming.FileTree.Change
import PhotoNaming.Yaml.Document

/-!
Loading configurations from YAML files.
-/

namespace PhotoNaming.Configuration

inductive LoadFault
  | file (fault : FileFault)
  | malformed
  | notMapping (path : Text)
  | setting (fault : SettingFault)

def LoadFault.message : LoadFault → Text
  | .file fault => fault.message
  | .malformed => "malformed YAML"
  | .notMapping path => "Config file must contain a mapping: ".toList ++ path
  | .setting fault => fault.message

/-- The configuration in a text from the file with a path. A text that holds nothing counts as an
empty mapping. -/
def ofYaml (path content : Text) : Except LoadFault Configuration :=
  match Yaml.read? content with
  | none => .error .malformed
  | some (.mapping entries) => (ofEntries entries).mapError .setting
  | some s => if s.isOn then .error (.notMapping path) else (ofEntries []).mapError .setting

def load (tree : FileTree) (path : Text) : Except LoadFault Configuration :=
  match tree.readFile path with
  | .error fault => .error (.file fault)
  | .ok data => ofYaml path data.content

end PhotoNaming.Configuration
