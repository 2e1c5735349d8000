import CompletionDb.Record.Layout

/-!
# Settings of a run

Which module is the builtin one, what stands for an unknown type, how deep types are expanded, how
signatures are found, and which modules are left out. Settings are a JSON document in which every
field may be missing.
-/
namespace CompletionDb

/-- How the overloads of a callable and the type of an accessor are found. -/
inductive Strategy
  /-- From the signature lines of the doc text. -/
  | docText
  /-- From what the runtime declares, and from the doc text where it declares nothing. -/
  | declared
  deriving DecidableEq, Repr, Inhabited

namespace Strategy

def name : Strategy → String
  | .docText => "docstring"
  | .declared => "introspect"

def all : List Strategy := [.docText, .declared]

def ofData? (room : Nat) (d : Data) : Option Strategy := do
  all[← d.choice? .json (all.map name) room]?

def ofName? (s : String) : Option Strategy := all.find? (·.name == s)

end Strategy

structure Settings where
  builtinModule : String := "builtins"
  placeholderType : Option TypeName := none
  /-- Types nested deeper than this are recorded as references. -/
  maxTypeDepth : Nat := 64
  strategy : Strategy := .docText
  skipModules : List String := ["__main__"]
  deriving DecidableEq, Repr, Inhabited

namespace Settings

/-- A type of the builtin module. -/
def builtinType (c : Settings) (name : String) : TypeName := ⟨c.builtinModule, name⟩

/-- The type that stands for an unknown one. -/
def placeholder (c : Settings) : TypeName := c.placeholderType.getD (c.builtinType "object")

/-- Whether a module is generated as an ordinary one. The builtin module is not. -/
def selects (c : Settings) (module : String) : Bool :=
  module != c.builtinModule && !c.skipModules.contains module

inductive Invalid
  | emptyBuiltinModule
  | zeroDepth
  deriving DecidableEq, Repr, Inhabited

def Invalid.message : Invalid → String
  | .emptyBuiltinModule => "invalid config: builtin_module must not be empty"
  | .zeroDepth => "invalid config: max_type_depth must be at least 1"

def check (c : Settings) : Except Invalid Settings :=
  if c.builtinModule.isEmpty then .error .emptyBuiltinModule
  else if c.maxTypeDepth = 0 then .error .zeroDepth
  else .ok c

def toData (c : Settings) : Data :=
  .object ([("builtin_module", .text c.builtinModule)] ++
    Data.optionalField "placeholder_type" TypeName.toData c.placeholderType ++
    [("max_type_depth", Data.ofNat c.maxTypeDepth), ("resolver", .text c.strategy.name),
      ("skip_modules", .list (c.skipModules.map .text))])

def fieldNames : List String :=
  ["builtin_module", "placeholder_type", "max_type_depth", "resolver", "skip_modules"]

/-- Read settings without checking them. -/
def ofData? (room : Nat) (d : Data) : Option Settings := do
  let base : Settings := {}
  match ← d.fields? .json fieldNames room with
  | [builtinModule, placeholderType, maxTypeDepth, strategy, skipModules] =>
    return {
      builtinModule := ← Data.fieldOr base.builtinModule Data.text? builtinModule
      placeholderType := ← Data.optional? (TypeName.ofData? (room - 1)) placeholderType
      maxTypeDepth := ← Data.fieldOr base.maxTypeDepth Data.natural? maxTypeDepth
      strategy := ← Data.fieldOr base.strategy (Strategy.ofData? (room - 1)) strategy
      skipModules :=
        ← Data.fieldOr base.skipModules (Data.listOf? .json (room - 1) Data.text?) skipModules }
  | _ => none

end Settings

end CompletionDb
