/-!
# Log lines

What the program tells about its work while it works. A line has a level, a fixed message and named
details, all of them text.
-/
namespace CompletionDb

inductive Level
  | debug
  | info
  | warn
  deriving DecidableEq, Repr, Inhabited

def Level.name : Level → String
  | .debug => "DEBUG"
  | .info => "INFO"
  | .warn => "WARN"

structure LogLine where
  level : Level
  message : String
  details : List (String × String)
  deriving DecidableEq, Repr, Inhabited

end CompletionDb
