import CompletionDb.Json.Reader
import CompletionDb.Snapshot.Layout

/-!
# Faults of a snapshot

A snapshot is sound if every id in it is the id of a listed object and every class has a name and a
module. `faults` lists what is wrong in a fixed order: the well-known types, the members of the
modules, then object by object. Loading reports the first fault.
-/
namespace CompletionDb

/-- Where a reference stands. -/
inductive Referrer
  | wellKnown (field : String)
  | member (module name : String)
  | object (id : Id)
  deriving DecidableEq, Repr, Inhabited

def Referrer.text : Referrer → String
  | .wellKnown field => "well_known." ++ field
  | .member module name => "module " ++ module ++ "." ++ name
  | .object id => "object " ++ id

inductive Fault
  | dangling (referrer : Referrer) (id : Id)
  | unnamed (id : Id)
  | homeless (id : Id)
  deriving DecidableEq, Repr, Inhabited

def Fault.message : Fault → String
  | .dangling referrer id => referrer.text ++ " references unknown object '" ++ id ++ "'"
  | .unnamed id => "class object '" ++ id ++ "' has no name"
  | .homeless id => "class object '" ++ id ++ "' has no module"

/-- All ids in an object, in the order in which they are checked. -/
def Object.references (o : Object) : List Id :=
  o.type.toList ++ o.mro.getD [] ++ o.bases ++ o.members.map Prod.snd ++ o.descriptorType.toList

namespace Snapshot

def isListed (s : Snapshot) (id : Id) : Bool := (s.object? id).isSome

def danglingFrom (s : Snapshot) (referrer : Referrer) (ids : List Id) : List Fault :=
  (ids.filter (!s.isListed ·)).map (.dangling referrer)

def objectFaults (s : Snapshot) (id : Id) (o : Object) : List Fault :=
  (if o.category.isClass && o.name.isNone then [.unnamed id] else []) ++
    (if o.category.isClass && o.module.isNone then [.homeless id] else []) ++
    s.danglingFrom (.object id) o.references

def faults (s : Snapshot) : List Fault :=
  s.wellKnown.named.flatMap (fun (field, id) => s.danglingFrom (.wellKnown field) [id]) ++
    s.modules.flatMap (fun (module, n) =>
      n.members.flatMap fun (member, id) => s.danglingFrom (.member module member) [id]) ++
    s.objects.flatMap (fun (id, o) => s.objectFaults id o)

inductive LoadError
  | malformed
  | faulty (fault : Fault)
  deriving DecidableEq, Repr, Inhabited

def LoadError.message : LoadError → String
  | .malformed => "invalid snapshot: not a snapshot document"
  | .faulty fault => fault.message

/-- Refuse a snapshot with faults. -/
def check (s : Snapshot) : Except LoadError Snapshot :=
  match s.faults with
  | [] => .ok s
  | fault :: _ => .error (.faulty fault)

def ofDocument (d : Data) : Except LoadError Snapshot :=
  match Snapshot.ofData? Json.maxDepth d with
  | some s => s.check
  | none => .error .malformed

def ofText (text : String) : Except LoadError Snapshot :=
  match Json.read text with
  | some d => ofDocument d
  | none => .error .malformed

end Snapshot

end CompletionDb
