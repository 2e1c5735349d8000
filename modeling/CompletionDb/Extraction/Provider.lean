import CompletionDb.Extraction.Module

/-!
# Providers of records

A run knows a runtime only by what it provides: the names of its modules and the record of each. The
builtin module is asked for apart from the others, because its record lists hidden types as well.
Snapshots are providers; a run works with any.
-/
namespace CompletionDb

/-- What was extracted from a module, with the log lines of the extraction, or the name of a module
that was not found. -/
abbrev Extracted := Except String (Record × List LogLine)

structure Provider where
  /-- Modules compiled into the runtime, in its order. -/
  builtinModules : List String
  extractBuiltin : (module : String) → Extracted
  extract : (module : String) → Extracted

namespace Extraction

def found (module : String) (lines : List LogLine) : Option Record → Extracted
  | none => .error module
  | some r => .ok (r, lines)

/-- A snapshot as a provider. -/
def provider (s : Snapshot) (c : Settings) : Provider where
  builtinModules := s.builtinModules
  extractBuiltin module := found module (builtinLog s c module) (builtinRecord? s c module)
  extract module := found module (log s c module) (record? s c module)

end Extraction

end CompletionDb
