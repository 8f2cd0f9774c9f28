import PhotoNaming.Setting.Basic

/-!
Settings that do not suit what they are for.
-/

namespace PhotoNaming

inductive SettingFault
  | notItems (s : Setting)
  | notExtension (s : Setting)
  | notName (s : Setting)
  | notLevel (s : Setting)
  | notFileName (s : Setting)
  | notPath (s : Setting)
  | notPattern (s : Setting)
  | notLevels (s : Setting)
  | notCount (s : Setting)

namespace SettingFault

/-- Whether it is a word of the setting that is missing, and not its whole type that is wrong. -/
def isMissingWord : SettingFault → Bool
  | notExtension _ | notLevel _ | notLevels _ => true
  | _ => false

private def withoutWord (s : Setting) (word : String) : Text :=
  '\'' :: s.typeName ++ "' object has no attribute '".toList ++ word.toList ++ ['\'']

def message : SettingFault → Text
  | notItems s => '\'' :: s.typeName ++ "' object is not iterable".toList
  | notExtension s => withoutWord s "startswith"
  | notName s => "unhashable type: '".toList ++ s.typeName ++ ['\'']
  | notLevel s => withoutWord s "upper"
  | notFileName s => "expected str, bytes or os.PathLike object, not ".toList ++ s.typeName
  | notPath s =>
    "stat: path should be string, bytes, os.PathLike or integer, not ".toList ++ s.typeName
  | notPattern s => "object of type '".toList ++ s.typeName ++ "' has no len()".toList
  | notLevels s => withoutWord s "strip"
  | notCount s =>
    "'>' not supported between instances of '".toList ++ s.typeName ++ "' and 'int'".toList

end SettingFault

end PhotoNaming
