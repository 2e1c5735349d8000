import CompletionDb.Log
import CompletionDb.Settings
import CompletionDb.Signature.Basic
import CompletionDb.Snapshot.Basic

/-!
# Entries of objects

Every object of a snapshot has one entry. Its kind is the first that fits: native callable, class,
method, accessor, plain value. A class is expanded into a type entry with entries for its members,
except inside an expansion of a type of the same name, and except below the depth limit; there it
is recorded as a reference. `chain` holds the names of the types being expanded, innermost first,
and `room` how many more may be.

The constructor of the root object is not looked up. Its entry is fixed.

What is recorded of a callable and of an accessor is found by a resolver. Entries are made with any
resolver; the settings of a run choose one.
-/
namespace CompletionDb.Extraction

/-- A way to find the overloads of a callable and the type of an accessor's values. -/
structure Resolver where
  overloads : Id → List Overload
  accessorType : Id → TypeName

/-- Overloads of a callable by the strategy of the run. -/
def overloads (s : Snapshot) (c : Settings) (id : Id) : List Overload :=
  let fromDoc :=
    match s.doc id with
    | some doc => Signature.parseDoc c.builtinModule c.placeholder doc
    | none => []
  match c.strategy with
  | .docText => fromDoc
  | .declared => (s.signatures id).getD fromDoc

/-- The type of an accessor's values by the strategy of the run. -/
def accessorType (s : Snapshot) (c : Settings) (id : Id) : TypeName :=
  match c.strategy with
  | .docText => c.placeholder
  | .declared =>
    match s.descriptorType id with
    | some type => s.typeName type
    | none => c.placeholder

/-- The resolver that the settings choose. -/
def resolver (s : Snapshot) (c : Settings) : Resolver := ⟨overloads s c, accessorType s c⟩

def Resolver.callable (r : Resolver) (s : Snapshot) (id : Id) : Callable where
  doc := s.doc id
  overloads := r.overloads id
  builtin := true
  static := s.isStatic id

def Resolver.property (r : Resolver) (s : Snapshot) (id : Id) : Attribute where
  doc := s.doc id
  type := r.accessorType id

def callable (s : Snapshot) (c : Settings) (id : Id) : Callable := (resolver s c).callable s id

def property (s : Snapshot) (c : Settings) (id : Id) : Attribute := (resolver s c).property s id

/-- Of a plain value only its type is recorded. -/
def datum (s : Snapshot) (id : Id) : Attribute where
  type := s.typeName (s.typeOf id)

def typeInfo (s : Snapshot) (hidden : Bool) (id : Id) : TypeInfo where
  mro := s.mro id
  bases := (s.bases id).map s.typeName
  doc := s.doc id
  hidden := hidden
  builtin := some (s.nativeMro id).isSome

def constructorName : String := "__new__"

/-- The entry of the root object's constructor. -/
def rootConstructor (c : Settings) : Entry :=
  .function {
    overloads := [{
      params := [{ name := "cls", type := some (c.builtinType "type") }]
      returns := c.builtinType "object" }]
    builtin := true
    static := true }

/-- Whether a member of a class is the constructor of the root object. -/
def isRootConstructor (s : Snapshot) (cls : Id) (member : String) : Bool :=
  cls == s.wellKnown.rootObject && member == constructorName

/-- Entries of the members of a class, given the entry of each object. -/
def memberEntries (s : Snapshot) (c : Settings) (child : Id → Entry) (cls : Id) : Table Entry :=
  (s.members cls).map fun (member, id) =>
    (member, if isRootConstructor s cls member then rootConstructor c else child id)

/-- The entry of an object inside the expansions of `chain`. -/
def entryIn (s : Snapshot) (c : Settings) (r : Resolver) :
    (room : Nat) → (chain : List TypeName) → (hidden : Bool) → Id → Entry
  | room, chain, hidden, id =>
    if (s.category id).isNativeCallable then .function (r.callable s id)
    else if (s.category id).isClass then
      if s.typeName id ∈ chain then .typeRef (s.typeName id)
      else
        match room with
        | 0 => .typeRef (s.typeName id)
        | room + 1 =>
          .type (typeInfo s hidden id)
            (memberEntries s c (entryIn s c r room (s.typeName id :: chain) false) id)
    else if (s.category id).isMethod then .method (r.callable s id)
    else if (s.category id).isAccessor then .property (r.property s id)
    else .data (datum s id)

/-- The entry of an object that stands in a namespace, with a given resolver. -/
def entryBy (s : Snapshot) (c : Settings) (r : Resolver) (hidden : Bool) (id : Id) : Entry :=
  entryIn s c r c.maxTypeDepth [] hidden id

/-- The entry of an object that stands in a namespace. -/
def entry (s : Snapshot) (c : Settings) (hidden : Bool) (id : Id) : Entry :=
  entryBy s c (resolver s c) hidden id

/-- The members of a class, expanded whatever it is. -/
def typeMembers (s : Snapshot) (c : Settings) (id : Id) : Table Entry :=
  memberEntries s c
    (entryIn s c (resolver s c) (c.maxTypeDepth - 1) [s.typeName id] false) id

/-! ## What was noticed -/

/-- Why a class was not expanded. -/
inductive Note
  | alreadyOpen (type : TypeName)
  | tooDeep (type : TypeName) (limit : Nat)
  deriving DecidableEq, Repr, Inhabited

def Note.logLine : Note → LogLine
  | .alreadyOpen type =>
    ⟨.debug, "type already being extracted, emitting reference", [("type_name", type.dotted)]⟩
  | .tooDeep type limit =>
    ⟨.warn, "type nesting too deep, emitting reference",
      [("type_name", type.dotted), ("max_depth", toString limit)]⟩

def memberNotes (s : Snapshot) (child : Id → List Note) (cls : Id) : List Note :=
  (s.members cls).flatMap fun (member, id) =>
    if isRootConstructor s cls member then [] else child id

/-- Notes in the order in which the classes are met. -/
def notesIn (s : Snapshot) (c : Settings) :
    (room : Nat) → (chain : List TypeName) → Id → List Note
  | room, chain, id =>
    if (s.category id).isNativeCallable || !(s.category id).isClass then []
    else if s.typeName id ∈ chain then [.alreadyOpen (s.typeName id)]
    else
      match room with
      | 0 => [.tooDeep (s.typeName id) c.maxTypeDepth]
      | room + 1 => memberNotes s (notesIn s c room (s.typeName id :: chain)) id

def notes (s : Snapshot) (c : Settings) (id : Id) : List Note := notesIn s c c.maxTypeDepth [] id

def typeNotes (s : Snapshot) (c : Settings) (id : Id) : List Note :=
  memberNotes s (notesIn s c (c.maxTypeDepth - 1) [s.typeName id]) id

end CompletionDb.Extraction
