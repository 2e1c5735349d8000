import CompletionDb.Data.Basic
import CompletionDb.Hierarchy

/-!
# Snapshots of a runtime

A snapshot describes the objects of a running interpreter: each object has an id, a category and
what reflection can tell about it; modules and classes list their members by id. Seven types are
well known, because no walk through the namespaces finds most of them.

The queries answer for every id. An id that is not listed is taken for a plain value.
-/
namespace CompletionDb

/-- Ids of objects in a snapshot. -/
abbrev Id := String

inductive Category
  /-- A class with an ancestor order of its own. -/
  | plainClass
  /-- A class without one. -/
  | legacyClass
  | builtinFunction
  | classMethodDescriptor
  | builtinMethod
  | slotWrapper
  | methodDescriptor
  | getsetDescriptor
  | memberDescriptor
  | value
  deriving DecidableEq, Repr, Inhabited

namespace Category

def name : Category → String
  | .plainClass => "class"
  | .legacyClass => "legacy_class"
  | .builtinFunction => "builtin_function"
  | .classMethodDescriptor => "class_method_descriptor"
  | .builtinMethod => "builtin_method"
  | .slotWrapper => "slot_wrapper"
  | .methodDescriptor => "method_descriptor"
  | .getsetDescriptor => "getset_descriptor"
  | .memberDescriptor => "member_descriptor"
  | .value => "instance"

def all : List Category :=
  [.plainClass, .legacyClass, .builtinFunction, .classMethodDescriptor, .builtinMethod,
    .slotWrapper, .methodDescriptor, .getsetDescriptor, .memberDescriptor, .value]

def isClass : Category → Bool
  | .plainClass | .legacyClass => true
  | _ => false

/-- Native callables that need no receiver. -/
def isNativeCallable : Category → Bool
  | .builtinFunction | .classMethodDescriptor => true
  | _ => false

/-- Native callables of any sort; the free ones count here as well. -/
def isMethod : Category → Bool
  | .builtinFunction | .classMethodDescriptor | .builtinMethod | .slotWrapper
  | .methodDescriptor => true
  | _ => false

def isAccessor : Category → Bool
  | .getsetDescriptor | .memberDescriptor => true
  | _ => false

end Category

structure Object where
  category : Category
  module : Option String := none
  name : Option String := none
  /-- Any document; only a text counts as doc text. -/
  doc : Option Data := none
  type : Option Id := none
  /-- Ancestor order, the class itself first. -/
  mro : Option (List Id) := none
  bases : List Id := []
  members : Table Id := []
  static : Bool := false
  signatures : Option (List Overload) := none
  descriptorType : Option Id := none
  deriving Repr, Inhabited

/-- What a snapshot says of a module. -/
structure Namespace where
  doc : Option Data := none
  members : Table Id := []
  deriving Repr, Inhabited

structure WellKnown where
  rootObject : Id
  function : Id
  builtinFunction : Id
  builtinMethod : Id
  generator : Id
  noneType : Id
  ellipsis : Id
  deriving DecidableEq, Repr, Inhabited

namespace WellKnown

def named (w : WellKnown) : List (String × Id) :=
  [("root_object", w.rootObject), ("function", w.function),
    ("builtin_function", w.builtinFunction), ("builtin_method", w.builtinMethod),
    ("generator", w.generator), ("none", w.noneType), ("ellipsis", w.ellipsis)]

/-- Types that the builtin module lists although its namespace does not, and under which names. -/
def hiddenEntries (w : WellKnown) : List (String × Id) :=
  [("function", w.function), ("builtin_function", w.builtinFunction),
    ("builtin_method_descriptor", w.builtinMethod), ("generator", w.generator),
    ("NoneType", w.noneType), ("ellipsis", w.ellipsis)]

end WellKnown

structure Snapshot where
  /-- Modules compiled into the runtime, in its order. -/
  builtinModules : List String := []
  wellKnown : WellKnown
  modules : Table Namespace := []
  objects : Table Object := []
  deriving Repr, Inhabited

/-- Only a text is doc text; other documents count as none. -/
def docText : Option Data → Option String
  | some (.text s) => some s
  | _ => none

namespace Snapshot

def object? (s : Snapshot) (id : Id) : Option Object := s.objects.find? id

def category (s : Snapshot) (id : Id) : Category :=
  match s.object? id with
  | some o => o.category
  | none => .value

/-- The declared type of an object; without one it depends on the category. -/
def typeOf (s : Snapshot) (id : Id) : Id :=
  match s.object? id with
  | none => s.wellKnown.rootObject
  | some o =>
    match o.type with
    | some t => t
    | none =>
      match o.category with
      | .builtinFunction | .classMethodDescriptor => s.wellKnown.builtinFunction
      | .builtinMethod | .slotWrapper | .methodDescriptor => s.wellKnown.builtinMethod
      | _ => s.wellKnown.rootObject

def typeName (s : Snapshot) (id : Id) : TypeName :=
  match s.object? id with
  | some o => ⟨o.module.getD "", o.name.getD id⟩
  | none => ⟨"", id⟩

def doc (s : Snapshot) (id : Id) : Option String := (s.object? id).bind (docText ·.doc)

/-- The ancestor order that the runtime gives for a class, if it is of the kind that has one. -/
def nativeMro (s : Snapshot) (id : Id) : Option (List Id) :=
  match s.object? id with
  | some o =>
    match o.category with
    | .plainClass => some (o.mro.getD [id])
    | _ => none
  | none => none

def bases (s : Snapshot) (id : Id) : List Id := ((s.object? id).map Object.bases).getD []

def members (s : Snapshot) (id : Id) : Table Id := ((s.object? id).map Object.members).getD []

def isStatic (s : Snapshot) (id : Id) : Bool := ((s.object? id).map Object.static).getD false

def signatures (s : Snapshot) (id : Id) : Option (List Overload) :=
  (s.object? id).bind Object.signatures

def descriptorType (s : Snapshot) (id : Id) : Option Id :=
  (s.object? id).bind Object.descriptorType

def hierarchy (s : Snapshot) : Hierarchy Id := s.objects.map fun (id, o) => (id, o.bases)

/-- The ancestors of a class: in the runtime's order if it gives one. -/
def mro (s : Snapshot) (id : Id) : List TypeName :=
  ((s.nativeMro id).getD (s.hierarchy.ancestors id)).map s.typeName

end Snapshot

end CompletionDb
