import CompletionDb.Generation
import CompletionDb.Inspection

/-!
# The command line

There are two commands. `generate` takes options only, `dump` takes one file. The log level may be
given once before and once after the command. An option is written `--name value` or `--name=value`;
in the first form the value does not start with a dash, unless it is a dash alone. After `--` there
are no options. A request for the version counts only before the command.

Answers and failures go to the standard output as JSON. A command line that cannot be understood
leaves it empty.
-/
namespace CompletionDb.CommandLine

/-- Which log lines are shown. -/
inductive Verbosity
  | trace
  | debug
  | info
  | warn
  | error
  deriving DecidableEq, Repr, Inhabited

namespace Verbosity

def name : Verbosity → String
  | .trace => "trace"
  | .debug => "debug"
  | .info => "info"
  | .warn => "warn"
  | .error => "error"

def all : List Verbosity := [.trace, .debug, .info, .warn, .error]

def ofName? (s : String) : Option Verbosity := all.find? (·.name == s)

def shows : Verbosity → Level → Bool
  | .trace, _ => true
  | .debug, _ => true
  | .info, level => level != .debug
  | .warn, level => level == .warn
  | .error, _ => false

end Verbosity

inductive Request
  | version
  | generate (options : Generation.Options)
  | dump (file : Path)
  deriving DecidableEq, Repr, Inhabited

structure Invocation where
  request : Request
  verbosity : Verbosity := .warn
  deriving DecidableEq, Repr, Inhabited

inductive UsageError
  | noCommand
  | unexpected (argument : String)
  | repeated (option : String)
  | noValue (option : String)
  | badValue (option value : String)
  | missing (argument : String)
  deriving DecidableEq, Repr, Inhabited

def UsageError.message : UsageError → String
  | .noCommand => "no command given"
  | .unexpected argument => "unexpected argument '" ++ argument ++ "'"
  | .repeated option => "--" ++ option ++ " is given more than once"
  | .noValue option => "--" ++ option ++ " needs a value"
  | .badValue option value => "'" ++ value ++ "' is no value for --" ++ option
  | .missing argument => argument ++ " is missing"

/-! ## Options and operands -/

/-- The name and the attached value of an argument that is written as an option. -/
def option? (argument : String) : Option (String × Option String) :=
  match argument.toList with
  | '-' :: '-' :: cs =>
    let name := String.ofList (cs.takeWhile (· != '='))
    match cs.dropWhile (· != '=') with
    | [] => some (name, none)
    | _ :: value => some (name, some (String.ofList value))
  | _ => none

/-- Whether an argument may stand for itself, as a value or as an operand. -/
def isPlain (argument : String) : Bool := argument == "-" || argument.toList.head? != some '-'

/-- Arguments of a command, taken apart. -/
structure Arguments where
  options : List (String × String) := []
  operands : List String := []
  deriving DecidableEq, Repr, Inhabited

def Arguments.addOption (a : Arguments) (name value : String) : Arguments :=
  { a with options := (name, value) :: a.options }

def Arguments.addOperand (a : Arguments) (operand : String) : Arguments :=
  { a with operands := operand :: a.operands }

/-- Take apart the arguments of a command with the given options. -/
def scan (names : List String) : List String → Except UsageError Arguments
  | [] => .ok {}
  | argument :: rest =>
    if argument = "--" then .ok { operands := rest }
    else
      match option? argument with
      | some (name, some value) =>
        if names.contains name then (scan names rest).map (·.addOption name value)
        else .error (.unexpected argument)
      | some (name, none) =>
        if !names.contains name then .error (.unexpected argument)
        else
          match rest with
          | [] => .error (.noValue name)
          | value :: rest =>
            if isPlain value then (scan names rest).map (·.addOption name value)
            else .error (.noValue name)
      | none =>
        if isPlain argument then (scan names rest).map (·.addOperand argument)
        else .error (.unexpected argument)

/-- The value of an option that may be given once. -/
def Arguments.value? (a : Arguments) (name : String) : Except UsageError (Option String) :=
  match (a.options.filter (·.1 == name)).map Prod.snd with
  | [] => .ok none
  | [value] => .ok (some value)
  | _ => .error (.repeated name)

/-- The value of an option, read as something else. -/
def Arguments.read? {α : Type} (a : Arguments) (name : String) (f : String → Option α) :
    Except UsageError (Option α) := do
  match ← a.value? name with
  | none => return none
  | some value =>
    match f value with
    | none => .error (.badValue name value)
    | some x => return some x

def Arguments.require {α : Type} (a : Arguments) (name : String) (f : String → Option α) :
    Except UsageError α := do
  match ← a.read? name f with
  | none => .error (.missing ("--" ++ name))
  | some x => return x

/-! ## Values -/

/-- No path is empty. -/
def path? (s : String) : Option Path := if s.isEmpty then none else some s

def maxCount : Nat := UInt64.size - 1

/-- Digits, after a plus sign or not, for a number of at most 64 bits. -/
def count? (s : String) : Option Nat :=
  let digits :=
    match s.toList with
    | '+' :: cs => cs
    | cs => cs
  if digits.isEmpty || !digits.all Json.isDigit then none
  else if Json.ofDigits digits ≤ maxCount then some (Json.ofDigits digits)
  else none

/-! ## Commands -/

def levelOption : String := "log-level"

def generateOptions : List String :=
  ["runtime", "out", "baseline", "config", "resolver", "max-depth", levelOption]

/-- The log level after the command counts more than the one before it. -/
def Arguments.verbosity (a : Arguments) (before : Option Verbosity) :
    Except UsageError Verbosity := do
  return (← a.read? levelOption Verbosity.ofName?).getD (before.getD .warn)

def parseGenerate (before : Option Verbosity) (args : List String) :
    Except UsageError Invocation := do
  let a ← scan generateOptions args
  match a.operands with
  | operand :: _ => .error (.unexpected operand)
  | [] =>
    let snapshot ← a.require "runtime" path?
    let out ← a.require "out" path?
    let baseline ← a.read? "baseline" path?
    let settings ← a.read? "config" path?
    let strategy ← a.read? "resolver" Strategy.ofName?
    let maxTypeDepth ← a.read? "max-depth" count?
    let verbosity ← a.verbosity before
    return ⟨.generate ⟨snapshot, out, baseline, settings, strategy, maxTypeDepth⟩, verbosity⟩

def parseDump (before : Option Verbosity) (args : List String) :
    Except UsageError Invocation := do
  let a ← scan [levelOption] args
  match a.operands with
  | [] => .error (.missing "the file")
  | [file] =>
    match path? file with
    | none => .error (.missing "the file")
    | some file => return ⟨.dump file, ← a.verbosity before⟩
  | _ :: operand :: _ => .error (.unexpected operand)

/-- A version flag, alone or at the start of a row of short flags. -/
def isVersion (argument : String) : Bool :=
  argument == "--version" || argument.toList.take 2 == ['-', 'V']

/-- Take note of the log level before the command. -/
def levelBefore (before : Option Verbosity) (value : String) : Except UsageError Verbosity :=
  match before, Verbosity.ofName? value with
  | some _, _ => .error (.repeated levelOption)
  | none, none => .error (.badValue levelOption value)
  | none, some v => .ok v

/-- Read a command line, given the log level met so far. -/
def parseFrom (before : Option Verbosity) : List String → Except UsageError Invocation
  | [] => .error .noCommand
  | argument :: rest =>
    if argument = "generate" then parseGenerate before rest
    else if argument = "dump" then parseDump before rest
    else if isVersion argument then .ok ⟨.version, before.getD .warn⟩
    else
      match option? argument with
      | some (name, some value) =>
        if name = levelOption then
          match levelBefore before value with
          | .ok v => parseFrom (some v) rest
          | .error e => .error e
        else .error (.unexpected argument)
      | some (name, none) =>
        if name = levelOption then
          match rest with
          | [] => .error (.noValue name)
          | value :: rest =>
            if isPlain value then
              match levelBefore before value with
              | .ok v => parseFrom (some v) rest
              | .error e => .error e
            else .error (.noValue name)
        else .error (.unexpected argument)
      | none => .error (.unexpected argument)

def parse (args : List String) : Except UsageError Invocation := parseFrom none args

/-! ## Running -/

/-- Exit code and standard output of a run. -/
structure Outcome where
  exit : Nat
  stdout : String
  deriving DecidableEq, Repr, Inhabited

def versionText : String := "idbgen 0.1.0\n"

/-- Exit code for a command line that cannot be understood. -/
def usageExit : Nat := 2

def Outcome.ofResult {α : Type} (toData : α → Data) : Except Failure α → Outcome
  | .ok a => ⟨0, Json.pretty (toData a)⟩
  | .error e => ⟨e.code, Json.pretty e.toData⟩

variable {m : Type → Type} [Monad m]

def answer (host : Host m) : Request → m Outcome
  | .version => pure ⟨0, versionText⟩
  | .generate o => do return .ofResult Generated.toData (← Generation.run host o)
  | .dump file => do return .ofResult Dumped.toData (← Inspection.dump host file)

/-- The same surroundings, with only the log lines that are to be shown. -/
def Verbosity.restrict (v : Verbosity) (host : Host m) : Host m :=
  { host with log := fun line => if v.shows line.level then host.log line else pure () }

/-- Run the program with its arguments. -/
def run (host : Host m) (args : List String) : m Outcome :=
  match parse args with
  | .error _ => pure ⟨usageExit, ""⟩
  | .ok i => answer (i.verbosity.restrict host) i.request

end CompletionDb.CommandLine
