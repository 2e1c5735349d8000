import CompletionDb.Archive
import CompletionDb.File.Host

/-!
# Stores of records

A store is a directory with one archived record per module, in a file named for the module. The
same directory may serve as the output of one run and as the baseline of the next.
-/
namespace CompletionDb

structure Store where
  root : Path
  deriving DecidableEq, Repr, Inhabited

namespace Store

inductive Error
  | io (path : Path) (error : FileError)
  | codec (module : String) (error : Archive.Error)
  deriving DecidableEq, Repr, Inhabited

def Error.message : Error → String
  | .io path error => "IO error at " ++ path ++ ": " ++ error.message
  | .codec module error => "codec error for module '" ++ module ++ "': " ++ error.message

/-- Extension of the files of a store. -/
def extension : String := "idb"

/-- The file of a module. -/
def pathFor (s : Store) (module : String) : Path := s.root.join (module ++ "." ++ extension)

variable {m : Type → Type} [Monad m]

def contains (host : Host m) (s : Store) (module : String) : m Bool := host.isFile (s.pathFor module)

/-- The record of a module. A missing file is no failure. -/
def load (host : Host m) (s : Store) (module : String) : m (Except Error (Option Record)) := do
  match ← host.read (s.pathFor module) with
  | .error .notFound => return .ok none
  | .error e => return .error (.io (s.pathFor module) e)
  | .ok bytes =>
    match Archive.decode bytes with
    | .ok r => return .ok (some r)
    | .error e => return .error (.codec module e)

/-- Write the record of a module. The directory is created if need be. -/
def save (host : Host m) (s : Store) (module : String) (r : Record) : m (Except Error Path) := do
  match ← host.makeDirs s.root with
  | .error e => return .error (.io s.root e)
  | .ok () =>
    match ← host.replace (s.pathFor module) (Archive.encode r) with
    | .error e => return .error (.io (s.pathFor module) e)
    | .ok () => return .ok (s.pathFor module)

/-- The module that a file name stands for, if it is that of a store file. -/
def moduleOfName (name : String) : Option String :=
  if Path.extensionOfName name = some extension then some (Path.stemOfName name) else none

/-- The modules in the store, in ascending order. -/
def list (host : Host m) (s : Store) : m (List String) := do
  return ((← host.fileNames s.root).filterMap moduleOfName).mergeSort

end Store

end CompletionDb
