import PhotoNaming.Text.Basic

/-!
Journals: the entries that a run leaves behind, each with its level and the component it is from.
-/

namespace PhotoNaming

namespace Journal

inductive Level
  | debug
  | info
  | warning
  | error
  deriving DecidableEq

def Level.name : Level → Text
  | .debug => "DEBUG"
  | .info => "INFO"
  | .warning => "WARNING"
  | .error => "ERROR"

def Level.severity : Level → Nat
  | .debug => 10
  | .info => 20
  | .warning => 30
  | .error => 40

inductive Component
  | session
  | catalog
  | record
  | pattern
  | naming
  | statistics
  | tags
  | sources
  | scan
  deriving DecidableEq

def Component.signature : Component → Text
  | .session => "snapname"
  | .catalog => "snapname.properties"
  | .record => "snapname.record"
  | .pattern => "snapname.compiler"
  | .naming => "snapname.naming"
  | .statistics => "snapname.statistics"
  | .tags => "snapname.reader"
  | .sources => "snapname.scanner"
  | .scan => "snapname.parallel"

structure Entry where
  level : Level
  component : Component
  message : Text
  deriving DecidableEq

/-- What the clock shows: the stamp of the lines of a journal, and how long its scan takes. -/
structure Clock where
  stamp : Text
  elapsed : Text

def Entry.line (clock : Clock) (e : Entry) : Text :=
  clock.stamp ++ " [".toList ++ Text.spacePadded 7 e.level.name ++ "] ".toList ++
    e.component.signature ++ ": ".toList ++ e.message

end Journal

/-- What a step leaves in the journal, beside its result or the fault that ended it. -/
structure Logged (ε α : Type) where
  entries : List Journal.Entry
  result : Except ε α

namespace Logged

variable {ε α β : Type}

def pure (a : α) : Logged ε α := ⟨[], .ok a⟩

def fail (e : ε) : Logged ε α := ⟨[], .error e⟩

def write (entries : List Journal.Entry) : Logged ε Unit := ⟨entries, .ok ()⟩

def ofExcept (result : Except ε α) : Logged ε α := ⟨[], result⟩

def bind (step : Logged ε α) (next : α → Logged ε β) : Logged ε β :=
  match step.result with
  | .error e => ⟨step.entries, .error e⟩
  | .ok a => ⟨step.entries ++ (next a).entries, (next a).result⟩

instance : Monad (Logged ε) where
  pure := pure
  bind := bind

def mapError (f : ε → β) (step : Logged ε α) : Logged β α :=
  ⟨step.entries, step.result.mapError f⟩

end Logged

end PhotoNaming
