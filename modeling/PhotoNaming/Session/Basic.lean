import PhotoNaming.Configuration.Loading
import PhotoNaming.Plan.Transfer
import PhotoNaming.Source.Scan

/-!
Sessions: what a run shows, in order, what becomes of the files, and how it ends.
-/

namespace PhotoNaming

/-- What a run shows: a text of its own, or an entry of the journal. -/
inductive Shown
  | text (t : Text)
  | entry (e : Journal.Entry)
  deriving DecidableEq

inductive SessionFault
  | setting (fault : SettingFault)
  | load (fault : Configuration.LoadFault)
  | scan (fault : ScanFault)
  | file (fault : FileFault)

def SessionFault.message : SessionFault → Text
  | .setting fault => fault.message
  | .load fault => fault.message
  | .scan fault => fault.message
  | .file fault => fault.message

/-- How a run ends: with an exit code, or by a fault that nothing answers. -/
inductive Ending
  | exit (code : Nat)
  | fault (fault : SessionFault)

/-- A part of a run: what it shows, and its result or the end of the run. -/
structure Stage (α : Type) where
  shown : List Shown
  result : Except Ending α

namespace Stage

variable {α β ε : Type}

def pure (a : α) : Stage α := ⟨[], .ok a⟩

def bind (stage : Stage α) (next : α → Stage β) : Stage β :=
  match stage.result with
  | .error ending => ⟨stage.shown, .error ending⟩
  | .ok a => ⟨stage.shown ++ (next a).shown, (next a).result⟩

instance : Monad Stage where
  pure := pure
  bind := bind

def write (texts : List Text) : Stage Unit := ⟨texts.map .text, .ok ()⟩

def log (entries : List Journal.Entry) : Stage Unit := ⟨entries.map .entry, .ok ()⟩

def stop (fault : SessionFault) : Stage α := ⟨[], .error (.fault fault)⟩

def refuse (complaint : Text) : Stage α :=
  ⟨[.text ("Error: ".toList ++ complaint)], .error (.exit 1)⟩

def terminate (complaint : Text) : Stage α :=
  ⟨[.entry ⟨.error, .session, "The program terminated unexpectedly: ".toList ++ complaint⟩],
    .error (.exit 1)⟩

def ofExcept (ending : ε → Stage α) : Except ε α → Stage α
  | .ok a => pure a
  | .error fault => ending fault

def setting (result : Except SettingFault α) : Stage α :=
  ofExcept (fun fault => stop (.setting fault)) result

end Stage

/-- A run as a whole. The pairs of paths are those of the files that were copied or moved. -/
structure Session where
  shown : List Shown
  tree : FileTree
  done : List (Text × Text)
  ending : Ending

namespace Session

def behind (shown : List Shown) (s : Session) : Session := { s with shown := shown ++ s.shown }

end Session

end PhotoNaming
