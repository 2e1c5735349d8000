import CompletionDb.Data.Shape

/-!
# Records as data

How records stand in files, in either format. Type names are pairs, an entry is a table of its kind
and its value, and fields without a value are left out. Reading is more lenient than writing, as
the module on shapes describes; in particular the value of an entry may stand before its kind.

Reading is bounded by the nesting that is left: an entry, its value and the member table in it take
three levels.
-/
namespace CompletionDb

open Data

/-! ## Writing -/

def TypeName.toData (t : TypeName) : Data := .list [.text t.module, .text t.name]

def Variadic.name : Variadic → String
  | .positional => "*"
  | .keyword => "**"

def Variadic.toData (v : Variadic) : Data := .text v.name

def Parameter.toData (p : Parameter) : Data :=
  .object ([("name", .text p.name)] ++ optionalField "type" TypeName.toData p.type ++
    optionalField "default" .text p.default ++ optionalField "arg_format" Variadic.toData p.variadic)

def Overload.toData (o : Overload) : Data :=
  .object [("params", .list (o.params.map Parameter.toData)), ("ret_type", o.returns.toData)]

def Callable.toData (f : Callable) : Data :=
  .object (optionalField "doc" .text f.doc ++ [("overloads", .list (f.overloads.map Overload.toData)),
    ("builtin", .bool f.builtin), ("static", .bool f.static)])

def Attribute.toData (a : Attribute) : Data :=
  .object (optionalField "doc" .text a.doc ++ [("type", a.type.toData)])

/-- A type entry's value, given its member table. -/
def TypeInfo.toData (t : TypeInfo) (members : Data) : Data :=
  .object ([("mro", .list (t.mro.map TypeName.toData)), ("bases", .list (t.bases.map TypeName.toData)),
    ("members", members)] ++ optionalField "doc" .text t.doc ++
    (if t.hidden then [("is_hidden", .bool true)] else []) ++ optionalField "builtin" .bool t.builtin)

def Kind.toData (k : Kind) : Data := .text k.name

/-- An entry's kind beside its value. -/
def tagged (kind : Kind) (value : Data) : Data := .object [("kind", kind.toData), ("value", value)]

mutual
def Entry.toData : Entry → Data
  | .function f => tagged .function f.toData
  | .method f => tagged .method f.toData
  | .property a => tagged .property a.toData
  | .data a => tagged .data a.toData
  | .type info members => tagged .type (info.toData (.table (Entry.tableToData members)))
  | .multiple es => tagged .multiple (.object [("members", .list (Entry.listToData es))])
  | .typeRef t => tagged .typeRef (.object [("type_name", t.toData)])
  | .moduleRef m => tagged .moduleRef (.object [("module_name", .text m)])

def Entry.tableToData : List (String × Entry) → List (Data × Data)
  | [] => []
  | (n, e) :: rest => (.text n, e.toData) :: Entry.tableToData rest

def Entry.listToData : List Entry → List Data
  | [] => []
  | e :: es => e.toData :: Entry.listToData es
end

def Record.toData (r : Record) : Data :=
  .object (optionalField "doc" .text r.doc ++ [("members", .table (Entry.tableToData r.members))])

/-! ## Reading -/

def TypeName.ofData? (room : Nat) (d : Data) : Option TypeName :=
  (d.pair? room).map fun (m, n) => ⟨m, n⟩

def Variadic.ofData? (how : Reading) (room : Nat) (d : Data) : Option Variadic :=
  match d.choice? how ["*", "**"] room with
  | some 0 => some .positional
  | some 1 => some .keyword
  | _ => none

def Parameter.ofData? (how : Reading) (room : Nat) (d : Data) : Option Parameter := do
  match ← d.fields? how ["name", "type", "default", "arg_format"] room with
  | [name, type, default, variadic] =>
    return {
      name := ← name.bind text?
      type := ← optional? (TypeName.ofData? (room - 1)) type
      default := ← optional? text? default
      variadic := ← optional? (Variadic.ofData? how (room - 1)) variadic }
  | _ => none

def Overload.ofData? (how : Reading) (room : Nat) (d : Data) : Option Overload := do
  match ← d.fields? how ["params", "ret_type"] room with
  | [params, returns] =>
    return {
      params := ← fieldOr [] (listOf? how (room - 1) (Parameter.ofData? how (room - 2))) params
      returns := ← returns.bind (TypeName.ofData? (room - 1)) }
  | _ => none

def Callable.ofData? (how : Reading) (room : Nat) (d : Data) : Option Callable := do
  match ← d.fields? how ["doc", "overloads", "builtin", "static"] room with
  | [doc, overloads, builtin, static] =>
    return {
      doc := ← optional? text? doc
      overloads := ← fieldOr [] (listOf? how (room - 1) (Overload.ofData? how (room - 2))) overloads
      builtin := ← fieldOr false bool? builtin
      static := ← fieldOr false bool? static }
  | _ => none

def Attribute.ofData? (how : Reading) (room : Nat) (d : Data) : Option Attribute := do
  match ← d.fields? how ["doc", "type"] room with
  | [doc, type] =>
    return { doc := ← optional? text? doc, type := ← type.bind (TypeName.ofData? (room - 1)) }
  | _ => none

/-- A type's own fields and its members. -/
def TypeInfo.ofData? (how : Reading) (child : Data → Option Entry) (room : Nat) (d : Data) :
    Option (TypeInfo × Table Entry) := do
  match ← d.fields? how ["mro", "bases", "members", "doc", "is_hidden", "builtin"] room with
  | [mro, bases, members, doc, hidden, builtin] =>
    let names := listOf? how (room - 1) (TypeName.ofData? (room - 2))
    return ({
      mro := ← fieldOr [] names mro
      bases := ← fieldOr [] names bases
      doc := ← optional? text? doc
      hidden := ← fieldOr false bool? hidden
      builtin := ← optional? bool? builtin }, ← fieldOr [] (tableOf? (room - 1) child) members)
  | _ => none

def alternatives? (how : Reading) (child : Data → Option Entry) (room : Nat) (d : Data) :
    Option (List Entry) := do
  match ← d.fields? how ["members"] room with
  | [members] => fieldOr [] (listOf? how (room - 1) child) members
  | _ => none

def typeTarget? (how : Reading) (room : Nat) (d : Data) : Option TypeName := do
  match ← d.fields? how ["type_name"] room with
  | [target] => target.bind (TypeName.ofData? (room - 1))
  | _ => none

def moduleTarget? (how : Reading) (room : Nat) (d : Data) : Option String := do
  match ← d.fields? how ["module_name"] room with
  | [target] => target.bind text?
  | _ => none

def Kind.ofData? (how : Reading) (room : Nat) (d : Data) : Option Kind := do
  Kind.all[← d.choice? how (Kind.all.map Kind.name) room]?

/-- The kind that a key names. -/
def Kind.ofKey? (how : Reading) (d : Data) : Option Kind := do
  Kind.all[← (position? how (Kind.all.map Kind.name) d).join]?

def entryFields : List String := ["kind", "value"]

/-- Whether the value of an entry stands before its kind. -/
def valueFirst (how : Reading) : List (Data × Data) → Bool
  | [] => false
  | (key, _) :: rest =>
    match position? how entryFields key with
    | some (some 0) => false
    | some (some 1) => true
    | _ => valueFirst how rest

/-- The kind of an entry, its value, and how the value is read. In a list the kind is read as a key
is, in a table as a choice. -/
def entryParts? (how : Reading) (room : Nat) (d : Data) : Option (Kind × Data × Reading) := do
  match ← d.fields? how entryFields room with
  | [some kind, some value] =>
    match d with
    | .table entries =>
      let early := valueFirst how entries
      let kind ← Kind.ofData? how (room - 1) kind
      if !early then some (kind, value, how)
      else if value.keepable (room - 1) then some (kind, value, .held)
      else none
    | _ => return (← Kind.ofKey? how kind, value, how)
  | _ => none

/-- Read the value of an entry of a known kind, given how to read the entries in it. -/
def Entry.ofValue? (how : Reading) (child : Data → Option Entry) (room : Nat) (d : Data) :
    Kind → Option Entry
  | .function => (Callable.ofData? how room d).map .function
  | .method => (Callable.ofData? how room d).map .method
  | .property => (Attribute.ofData? how room d).map .property
  | .data => (Attribute.ofData? how room d).map .data
  | .type => (TypeInfo.ofData? how child room d).map fun (info, members) => .type info members
  | .multiple => (alternatives? how child room d).map .multiple
  | .typeRef => (typeTarget? how room d).map .typeRef
  | .moduleRef => (moduleTarget? how room d).map .moduleRef

def Entry.ofData? : (how : Reading) → (room : Nat) → Data → Option Entry
  | how, room + 3, d => do
    let (kind, value, how) ← entryParts? how (room + 3) d
    Entry.ofValue? how (Entry.ofData? how room) (room + 2) value kind
  -- Entries inside this one would have no room left.
  | how, room, d => do
    let (kind, value, how) ← entryParts? how room d
    Entry.ofValue? how (fun _ => none) (room - 1) value kind

def Record.ofData? (how : Reading) (room : Nat) (d : Data) : Option Record := do
  match ← d.fields? how ["doc", "members"] room with
  | [doc, members] =>
    return {
      doc := ← optional? text? doc
      members := ← fieldOr [] (tableOf? (room - 1) (Entry.ofData? how (room - 2))) members }
  | _ => none

end CompletionDb
