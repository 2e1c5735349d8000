import CompletionDb.CommandLine

/-!
# The program

The command line over the files of the machine. Log lines go to the standard error output.
-/
namespace CompletionDb.Machine

/-- What the system reports, by its error numbers. -/
def fileError : IO.Error → FileError
  | .noFileOrDirectory .. => .notFound
  | .alreadyExists .. => .alreadyExists
  | .inappropriateType _ code _ => ofCode code
  | .invalidArgument _ code _ => ofCode code
  | .resourceExhausted _ code _ => ofCode code
  | e => .other (toString e)
where
  ofCode (code : UInt32) : FileError :=
    if code = 20 then .notDirectory
    else if code = 21 then .isDirectory
    else if code = 36 then .nameTooLong
    else .other ("os error " ++ toString code)

def attempt {α : Type} (action : IO α) : IO (Except FileError α) := do
  try
    return .ok (← action)
  catch e =>
    return .error (fileError e)

def isDir (path : Path) : IO Bool := do
  if path.isEmpty then return false else ((← IO.currentDir) / path).isDir

def isFile (path : Path) : IO Bool := do
  if path.isEmpty then return false
  else
    let place := (← IO.currentDir) / path
    return (← place.pathExists) && !(← place.isDir)

def fileNames (path : Path) : IO (List String) := do
  if ← isDir path then
    let entries ← ((← IO.currentDir) / path).readDir
    let files ← entries.filterM fun entry => return !(← entry.path.isDir)
    return files.toList.map (·.fileName)
  else
    return []

def logText (line : LogLine) : String :=
  line.level.name ++ " " ++ line.message ++
    String.join (line.details.map fun (name, value) => " " ++ name ++ "=" ++ value)

def host (tag : String) : Host IO where
  read path := attempt do return (← IO.FS.readBinFile path).toList
  write path bytes := attempt (IO.FS.writeBinFile path ⟨bytes.toArray⟩)
  rename source dest := attempt (IO.FS.rename source dest)
  remove path := attempt (IO.FS.removeFile path)
  makeDir path := attempt (IO.FS.createDir path)
  isFile := isFile
  isDir := isDir
  fileNames := fileNames
  tag := tag
  log line := do (← IO.getStderr).putStrLn (logText line)

end CompletionDb.Machine

open CompletionDb in
def main (args : List String) : IO UInt32 := do
  match CommandLine.parse args with
  | .error e => (← IO.getStderr).putStrLn ("error: " ++ e.message)
  | .ok _ => pure ()
  let outcome ← CommandLine.run (Machine.host (toString (← IO.monoNanosNow))) args
  let out ← IO.getStdout
  out.putStr outcome.stdout
  out.flush
  return outcome.exit.toUInt32
