import CompletionDb.Failure
import CompletionDb.Json.Printer

/-!
# Responses

Commands answer with one JSON document. It starts with a status and the version of the answer
format, also when the command failed.
-/
namespace CompletionDb

def schemaVersion : String := "1"

def header (status : String) : List (String × Data) :=
  [("status", .text status), ("schema_version", .text schemaVersion)]

/-- A module that was not written, and why. -/
structure Skipped where
  name : String
  reason : String
  deriving DecidableEq, Repr, Inhabited

def Skipped.toData (s : Skipped) : Data :=
  .object [("name", .text s.name), ("reason", .text s.reason)]

/-- What a generation run did. -/
structure Generated where
  /-- Modules in the order in which they were written. -/
  written : List String
  skipped : List Skipped
  /-- Members whose kind differs from the baseline. -/
  conflicts : Nat
  deriving DecidableEq, Repr, Inhabited

def Generated.toData (g : Generated) : Data :=
  .object (header "ok" ++ [("modules_written", .list (g.written.map .text))] ++
    (if g.skipped.isEmpty then [] else [("modules_skipped", .list (g.skipped.map Skipped.toData))]) ++
    [("kind_conflicts", Data.ofNat g.conflicts)])

/-- The record in one file. -/
structure Dumped where
  module : String
  record : Record
  deriving DecidableEq, Repr, Inhabited

def Dumped.toData (d : Dumped) : Data :=
  .object (header "ok" ++ [("module", .text d.module), ("record", d.record.toData)])

def Failure.toData (f : Failure) : Data :=
  .object (header "error" ++
    [("error", .object [("code", Data.ofNat f.code), ("message", .text f.message)])])

end CompletionDb
