import CompletionDb.File.Host
import CompletionDb.Snapshot.Fault

/-!
# Snapshot files

Loading the snapshot from a file of JSON text.
-/
namespace CompletionDb.Snapshot

inductive FileLoadError
  | unreadable (path : Path) (error : FileError)
  | unusable (error : LoadError)
  deriving DecidableEq, Repr, Inhabited

def FileLoadError.message : FileLoadError → String
  | .unreadable path error => "cannot read snapshot " ++ path ++ ": " ++ error.message
  | .unusable error => error.message

def load {m : Type → Type} [Monad m] (host : Host m) (path : Path) :
    m (Except FileLoadError Snapshot) := do
  match ← host.readText path with
  | .error e => return .error (.unreadable path e)
  | .ok text => return (ofText text).mapError .unusable

end CompletionDb.Snapshot
