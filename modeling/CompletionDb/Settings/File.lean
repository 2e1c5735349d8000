import CompletionDb.File.Host
import CompletionDb.Json.Reader
import CompletionDb.Settings

/-!
# Settings files

Settings are read from a JSON file and checked at once.
-/
namespace CompletionDb.Settings

inductive LoadError
  | unreadable (path : Path) (error : FileError)
  | malformed (path : Path)
  | invalid (reason : Invalid)
  deriving DecidableEq, Repr, Inhabited

def LoadError.message : LoadError → String
  | .unreadable path error => "cannot read config " ++ path ++ ": " ++ error.message
  | .malformed path => "invalid config " ++ path ++ ": not a settings document"
  | .invalid reason => reason.message

/-- Read settings from the text of the file at a path. -/
def ofText (path : Path) (text : String) : Except LoadError Settings :=
  match (Json.read text).bind (Settings.ofData? Json.maxDepth) with
  | none => .error (.malformed path)
  | some c => c.check.mapError .invalid

def load {m : Type → Type} [Monad m] (host : Host m) (path : Path) :
    m (Except LoadError Settings) := do
  match ← host.readText path with
  | .error e => return .error (.unreadable path e)
  | .ok text => return ofText path text

end CompletionDb.Settings
