/-!
# Failures of file operations

The ways in which reading and writing files fails, with the texts that the operating system has for
them.
-/
namespace CompletionDb

inductive FileError
  | notFound
  | alreadyExists
  | notDirectory
  | isDirectory
  | nameTooLong
  | nulInName
  | notUtf8
  /-- Anything else, in the words of the system. -/
  | other (text : String)
  deriving DecidableEq, Repr, Inhabited

def FileError.message : FileError → String
  | .notFound => "No such file or directory (os error 2)"
  | .alreadyExists => "File exists (os error 17)"
  | .notDirectory => "Not a directory (os error 20)"
  | .isDirectory => "Is a directory (os error 21)"
  | .nameTooLong => "File name too long (os error 36)"
  | .nulInName => "file name contained an unexpected NUL byte"
  | .notUtf8 => "stream did not contain valid UTF-8"
  | .other text => text

end CompletionDb
