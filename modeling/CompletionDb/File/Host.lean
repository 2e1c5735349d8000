import CompletionDb.File.Error
import CompletionDb.File.Path
import CompletionDb.Log

/-!
# What the program needs of its surroundings

File operations and a place for log lines, over any monad. The program runs over the files of the
machine, and, for reasoning and for trial runs, over a disk that is a value.
-/
namespace CompletionDb

structure Host (m : Type → Type) where
  read : Path → m (Except FileError (List UInt8))
  write : Path → List UInt8 → m (Except FileError Unit)
  /-- Move a file, over another file if there is one. -/
  rename : Path → Path → m (Except FileError Unit)
  remove : Path → m (Except FileError Unit)
  /-- Create a directory in an existing one. -/
  makeDir : Path → m (Except FileError Unit)
  isFile : Path → m Bool
  isDir : Path → m Bool
  /-- Names of the regular files in a directory, in any order; none if there is no directory. -/
  fileNames : Path → m (List String)
  /-- Tells the temporary files of this run from those of others. -/
  tag : String
  log : LogLine → m Unit

namespace Host

variable {m : Type → Type} [Monad m]

def logAll (host : Host m) : List LogLine → m Unit
  | [] => pure ()
  | line :: lines => do
    host.log line
    host.logAll lines

/-- Create the first directory of a chain, after those that follow it if they are missing. -/
def makeChain (host : Host m) : List Path → m (Except FileError Unit)
  | [] => pure (.ok ())
  | path :: parents => do
    match ← host.makeDir path with
    | .ok () => return .ok ()
    | .error .notFound =>
      match ← host.makeChain parents with
      | .error e => return .error e
      | .ok () =>
        match ← host.makeDir path with
        | .ok () => return .ok ()
        | .error e => return if ← host.isDir path then .ok () else .error e
    | .error e => return if ← host.isDir path then .ok () else .error e

/-- Create a directory and what is missing above it. An existing directory is no failure. -/
def makeDirs (host : Host m) (path : Path) : m (Except FileError Unit) :=
  if path.isEmpty then pure (.ok ()) else host.makeChain path.chain

def readText (host : Host m) (path : Path) : m (Except FileError String) := do
  match ← host.read path with
  | .error e => return .error e
  | .ok bytes =>
    match String.fromUTF8? ⟨bytes.toArray⟩ with
    | some text => return .ok text
    | none => return .error .notUtf8

/-- The temporary file beside a file that is about to be replaced. -/
def temporary (host : Host m) (path : Path) : Path :=
  path.withName ("." ++ path.name?.getD "" ++ "." ++ host.tag ++ ".tmp")

/-- Replace a file at once: readers see the old content or the new one. -/
def replace (host : Host m) (path : Path) (bytes : List UInt8) : m (Except FileError Unit) := do
  let temp := host.temporary path
  match ← host.write temp bytes with
  | .error e => return .error e
  | .ok () =>
    match ← host.rename temp path with
    | .ok () => return .ok ()
    | .error e => do
      let _ ← host.remove temp
      return .error e

end Host

end CompletionDb
