import CompletionDb.Record.Layout
import CompletionDb.Snapshot.Basic

/-!
# Snapshots as documents

Snapshots are JSON documents. Reading keeps doc values of any form, with their tables sorted.
-/
namespace CompletionDb

open Data

/-! ## Writing -/

def nullable {α : Type} (print : α → Data) : Option α → Data
  | none => .null
  | some a => print a

def idTable (members : Table Id) : Data := .object (members.map fun (n, i) => (n, .text i))

def idList (ids : List Id) : Data := .list (ids.map .text)

def Category.toData (c : Category) : Data := .text c.name

def Object.toData (o : Object) : Data :=
  .object [("category", o.category.toData), ("module", nullable .text o.module),
    ("name", nullable .text o.name), ("doc", nullable id o.doc), ("type", nullable .text o.type),
    ("mro", nullable idList o.mro), ("bases", idList o.bases), ("members", idTable o.members),
    ("static", .bool o.static),
    ("signatures", nullable (fun os => .list (os.map Overload.toData)) o.signatures),
    ("descriptor_type", nullable .text o.descriptorType)]

def Namespace.toData (n : Namespace) : Data :=
  .object [("doc", nullable id n.doc), ("members", idTable n.members)]

def WellKnown.toData (w : WellKnown) : Data := .object (w.named.map fun (n, i) => (n, .text i))

/-! ## Reading -/

def Category.ofData? (room : Nat) (d : Data) : Option Category := do
  Category.all[← d.choice? .json (Category.all.map Category.name) room]?

/-- Any document that can be kept. -/
def docValue? (room : Nat) (d : Data) : Option Data :=
  if d.keepable room then some d.sorted else none

def idList? (room : Nat) : Data → Option (List Id) := listOf? .json room text?

def idTable? (room : Nat) : Data → Option (Table Id) := tableOf? room text?

def objectFields : List String :=
  ["category", "module", "name", "doc", "type", "mro", "bases", "members", "static", "signatures",
    "descriptor_type"]

def Object.ofData? (room : Nat) (d : Data) : Option Object := do
  match ← d.fields? .json objectFields room with
  | [category, module, name, doc, type, mro, bases, members, static, signatures, descriptor] =>
    return {
      category := ← category.bind (Category.ofData? (room - 1))
      module := ← optional? text? module
      name := ← optional? text? name
      doc := ← optional? (docValue? (room - 1)) doc
      type := ← optional? text? type
      mro := ← optional? (idList? (room - 1)) mro
      bases := ← fieldOr [] (idList? (room - 1)) bases
      members := ← fieldOr [] (idTable? (room - 1)) members
      static := ← fieldOr false bool? static
      signatures :=
        ← optional? (listOf? .json (room - 1) (Overload.ofData? .json (room - 2))) signatures
      descriptorType := ← optional? text? descriptor }
  | _ => none

def Namespace.ofData? (room : Nat) (d : Data) : Option Namespace := do
  match ← d.fields? .json ["doc", "members"] room with
  | [doc, members] =>
    return {
      doc := ← optional? (docValue? (room - 1)) doc
      members := ← fieldOr [] (idTable? (room - 1)) members }
  | _ => none

def wellKnownFields : List String :=
  ["root_object", "function", "builtin_function", "builtin_method", "generator", "none", "ellipsis"]

def WellKnown.ofData? (room : Nat) (d : Data) : Option WellKnown := do
  match ← d.fields? .json wellKnownFields room with
  | [root, function, builtinFunction, builtinMethod, generator, noneType, ellipsis] =>
    return {
      rootObject := ← root.bind text?
      function := ← function.bind text?
      builtinFunction := ← builtinFunction.bind text?
      builtinMethod := ← builtinMethod.bind text?
      generator := ← generator.bind text?
      noneType := ← noneType.bind text?
      ellipsis := ← ellipsis.bind text? }
  | _ => none

/-- Read a snapshot, without checking its references. -/
def Snapshot.ofData? (room : Nat) (d : Data) : Option Snapshot := do
  match ← d.fields? .json ["builtin_modules", "well_known", "modules", "objects"] room with
  | [builtinModules, wellKnown, modules, objects] =>
    return {
      builtinModules := ← fieldOr [] (listOf? .json (room - 1) text?) builtinModules
      wellKnown := ← wellKnown.bind (WellKnown.ofData? (room - 1))
      modules := ← fieldOr [] (tableOf? (room - 1) (Namespace.ofData? (room - 2))) modules
      objects := ← fieldOr [] (tableOf? (room - 1) (Object.ofData? (room - 2))) objects }
  | _ => none

end CompletionDb
