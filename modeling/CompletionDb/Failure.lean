import CompletionDb.Settings.File
import CompletionDb.Snapshot.File
import CompletionDb.Store

/-!
# Failures of a command

Whatever makes a command fail is reported as one of six failures. Each has a code, which is also the
exit code of the program, and a message.
-/
namespace CompletionDb

inductive Failure
  | invalidArguments (message : String)
  | fileNotFound (path : String)
  | moduleNotFound (name : String)
  | runtimeLoad (message : String)
  | store (message : String) (module : Option String)
  | internal (message : String)
  deriving DecidableEq, Repr, Inhabited

namespace Failure

def code : Failure → Nat
  | .invalidArguments _ => 2
  | .fileNotFound _ => 3
  | .moduleNotFound _ => 3
  | .runtimeLoad _ => 3
  | .store .. => 4
  | .internal _ => 10

def message : Failure → String
  | .invalidArguments message => "invalid arguments: " ++ message
  | .fileNotFound path => "file not found: " ++ path
  | .moduleNotFound name => "module not found: " ++ name
  | .runtimeLoad message => "runtime load error: " ++ message
  | .store message _ => "store error: " ++ message
  | .internal message => "internal error: " ++ message

end Failure

/-- Only damage to an archived record concerns one module. -/
def Store.Error.failure (e : Store.Error) : Failure :=
  match e with
  | .io .. => .store e.message none
  | .codec module _ => .store e.message (some module)

/-- A settings file that cannot be read counts as missing, for whatever reason. -/
def Settings.LoadError.failure : Settings.LoadError → Failure
  | .unreadable path _ => .fileNotFound path
  | e => .invalidArguments e.message

def Snapshot.FileLoadError.failure : Snapshot.FileLoadError → Failure
  | .unreadable path .notFound => .fileNotFound path
  | e => .runtimeLoad e.message

end CompletionDb
