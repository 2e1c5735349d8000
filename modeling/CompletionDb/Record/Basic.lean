/-!
# Records of a completion database

One record describes one module: its doc text and a table of members. A type entry has a member
table of its own, so records are trees. The fields of a type entry other than its members are kept
together as `TypeInfo`: a merge and an extraction treat them as one block.

Tables are association lists in ascending order of their keys. The order is by code point, which is
also the order of the UTF-8 bytes. `Table.ofList` establishes it; nothing here assumes it.
-/
namespace CompletionDb

/-- A type is known by the module that defines it and its name there. -/
structure TypeName where
  module : String
  name : String
  deriving DecidableEq, Repr, Inhabited

namespace TypeName

/-- The dotted text of a type name. Different type names may share it. -/
def dotted (t : TypeName) : String := t.module ++ "." ++ t.name

/-- Type names are ordered by module, then by name. -/
def order (a b : TypeName) : Ordering :=
  (compare a.module b.module).then (compare a.name b.name)

end TypeName

/-- Marks a parameter that collects several arguments. -/
inductive Variadic
  | positional
  | keyword
  deriving DecidableEq, Repr, Inhabited

structure Parameter where
  name : String
  type : Option TypeName := none
  /-- Text of the default value. -/
  default : Option String := none
  variadic : Option Variadic := none
  deriving DecidableEq, Repr, Inhabited

/-- One way to call a function. -/
structure Overload where
  params : List Parameter
  returns : TypeName
  deriving DecidableEq, Repr, Inhabited

structure Callable where
  doc : Option String := none
  overloads : List Overload := []
  builtin : Bool := false
  static : Bool := false
  deriving DecidableEq, Repr, Inhabited

/-- What is kept of a property or a datum: the type of its value. -/
structure Attribute where
  doc : Option String := none
  type : TypeName
  deriving DecidableEq, Repr, Inhabited

/-- A type entry without its members. -/
structure TypeInfo where
  /-- Ancestors in look-up order. -/
  mro : List TypeName := []
  /-- Declared bases, repeats included. -/
  bases : List TypeName := []
  doc : Option String := none
  /-- Set on entries that no namespace lists. -/
  hidden : Bool := false
  builtin : Option Bool := none
  deriving DecidableEq, Repr, Inhabited

inductive Entry
  | function (f : Callable)
  | method (f : Callable)
  | property (a : Attribute)
  | data (a : Attribute)
  | type (info : TypeInfo) (members : List (String × Entry))
  | multiple (alternatives : List Entry)
  | typeRef (target : TypeName)
  | moduleRef (target : String)
  deriving Repr, Inhabited

inductive Kind
  | function
  | method
  | property
  | data
  | type
  | multiple
  | typeRef
  | moduleRef
  deriving DecidableEq, Repr, Inhabited

namespace Kind

def name : Kind → String
  | .function => "function"
  | .method => "method"
  | .property => "property"
  | .data => "data"
  | .type => "type"
  | .multiple => "multiple"
  | .typeRef => "typeref"
  | .moduleRef => "moduleref"

/-- All kinds, in the order that numbers them. -/
def all : List Kind :=
  [.function, .method, .property, .data, .type, .multiple, .typeRef, .moduleRef]

end Kind

def Entry.kind : Entry → Kind
  | .function _ => .function
  | .method _ => .method
  | .property _ => .property
  | .data _ => .data
  | .type .. => .type
  | .multiple _ => .multiple
  | .typeRef _ => .typeRef
  | .moduleRef _ => .moduleRef

/-- Associations from names, ascending and without repeats. -/
abbrev Table (α : Type) := List (String × α)

namespace Table

variable {α : Type}

/-- The value under the first key equal to the one sought. -/
def find? (table : Table α) (key : String) : Option α := table.lookup key

def keys (table : Table α) : List String := table.map Prod.fst

/-- Of neighbours with equal keys keep the last. -/
def lastOfRuns : Table α → Table α
  | [] => []
  | [entry] => [entry]
  | entry :: next :: rest =>
    if entry.1 = next.1 then lastOfRuns (next :: rest) else entry :: lastOfRuns (next :: rest)

/-- Whether each key is less than the next. -/
def ascends : List (String × α) → Bool
  | entry :: next :: rest => entry.1 < next.1 && ascends (next :: rest)
  | _ => true

/-- The table of a list of associations. The last of several under one key counts. A list that is in
order, as one from a stored table is, stays as it is. -/
def ofList (entries : List (String × α)) : Table α :=
  if ascends entries then entries else lastOfRuns (entries.mergeSort fun a b => a.1 ≤ b.1)

/-- Set the value of a key. -/
def insert (key : String) (value : α) : Table α → Table α
  | [] => [(key, value)]
  | entry :: rest =>
    if key < entry.1 then (key, value) :: entry :: rest
    else if key = entry.1 then (key, value) :: rest
    else entry :: insert key value rest

/-- Keys ascend strictly. -/
def Ascending (table : Table α) : Prop := table.keys.Pairwise (· < ·)

end Table

structure Record where
  doc : Option String := none
  members : Table Entry := []
  deriving Repr, Inhabited

/-! ## Equality of entries -/

mutual
/-- Whether two entries are equal. -/
def Entry.same : Entry → Entry → Bool
  | .function f, .function g => f == g
  | .method f, .method g => f == g
  | .property a, .property b => a == b
  | .data a, .data b => a == b
  | .type i ms, .type j ns => i == j && Entry.sameTable ms ns
  | .multiple es, .multiple fs => Entry.sameList es fs
  | .typeRef t, .typeRef u => t == u
  | .moduleRef m, .moduleRef n => m == n
  | _, _ => false

def Entry.sameTable : List (String × Entry) → List (String × Entry) → Bool
  | [], [] => true
  | (n, e) :: ms, (k, f) :: ns => n == k && Entry.same e f && Entry.sameTable ms ns
  | _, _ => false

def Entry.sameList : List Entry → List Entry → Bool
  | [], [] => true
  | e :: es, f :: fs => Entry.same e f && Entry.sameList es fs
  | _, _ => false
end

mutual
theorem Entry.same_iff : (a b : Entry) → (a.same b = true ↔ a = b)
  | .function _, b | .method _, b | .property _, b | .data _, b | .typeRef _, b
  | .moduleRef _, b => by cases b <;> simp [Entry.same]
  | .type _ ms, b => by cases b <;> simp [Entry.same, Entry.sameTable_iff ms]
  | .multiple es, b => by cases b <;> simp [Entry.same, Entry.sameList_iff es]

theorem Entry.sameTable_iff :
    (a b : List (String × Entry)) → (Entry.sameTable a b = true ↔ a = b)
  | [], b => by cases b <;> simp [Entry.sameTable]
  | (n, e) :: ms, b => by
    cases b <;> simp [Entry.sameTable, Prod.ext_iff, Entry.same_iff e, Entry.sameTable_iff ms]

theorem Entry.sameList_iff : (a b : List Entry) → (Entry.sameList a b = true ↔ a = b)
  | [], b => by cases b <;> simp [Entry.sameList]
  | e :: es, b => by cases b <;> simp [Entry.sameList, Entry.same_iff e, Entry.sameList_iff es]
end

instance : DecidableEq Entry := fun a b => decidable_of_iff _ (Entry.same_iff a b)

instance : DecidableEq Record := fun a b =>
  decidable_of_iff (a.doc = b.doc ∧ a.members = b.members) (by cases a; cases b; simp)

end CompletionDb
