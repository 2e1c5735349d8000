import CompletionDb.Log
import CompletionDb.Merge.Basic

/-!
# What a merge did

Findings are listed member by member in the order of the fresh tables, a type's own members in its
place. The counts of a report and the lines of the log are read off that list.
-/
namespace CompletionDb.Merge

/-- Something a merge did, or noticed, at one member. -/
inductive Finding
  | overloadsAdopted (count : Nat)
  | overloadsKept (count : Nat)
  | docAdopted
  | typeNarrowed (type : TypeName)
  | noRule (kind : Kind)
  | conflict (fresh baseline : Kind)
  deriving DecidableEq, Repr, Inhabited

/-- A finding and the names that lead to its member. -/
structure Note where
  path : List String
  finding : Finding
  deriving DecidableEq, Repr, Inhabited

def adoptFindings (base fresh : Callable) : List Finding :=
  (if fresh.overloads.isEmpty then
    if base.overloads.isEmpty then [] else [.overloadsAdopted base.overloads.length]
  else [.overloadsKept fresh.overloads.length]) ++
    if fresh.doc.isNone && base.doc.isSome then [.docAdopted] else []

def narrowFindings (placeholder : TypeName) (base fresh : Attribute) : List Finding :=
  if fresh.type = placeholder ∧ base.type ≠ placeholder then [.typeNarrowed base.type] else []

mutual
def entryNotes (placeholder : TypeName) (path : List String) : (base fresh : Entry) → List Note
  | .type _ old, .type _ members => tableNotes placeholder path old members
  | .function old, .function f => (adoptFindings old f).map (⟨path, ·⟩)
  | .method old, .method f => (adoptFindings old f).map (⟨path, ·⟩)
  | .property old, .property a => (narrowFindings placeholder old a).map (⟨path, ·⟩)
  | .data old, .data a => (narrowFindings placeholder old a).map (⟨path, ·⟩)
  | old, fresh =>
    if old.kind = fresh.kind then [⟨path, .noRule fresh.kind⟩]
    else [⟨path, .conflict fresh.kind old.kind⟩]

def tableNotes (placeholder : TypeName) (path : List String) (base : List (String × Entry)) :
    List (String × Entry) → List Note
  | [] => []
  | (name, fresh) :: rest =>
    (match Table.find? base name with
    | some old => entryNotes placeholder (path ++ [name]) old fresh
    | none => []) ++ tableNotes placeholder path base rest
end

/-- Everything that merging a fresh record with its baseline does or notices. -/
def notes (placeholder : TypeName) (base : Option Record) (fresh : Record) : List Note :=
  match base with
  | none => []
  | some base => tableNotes placeholder [] base.members fresh.members

def dotted (path : List String) : String := ".".intercalate path

/-- A member whose kind differs between the two records. -/
structure Conflict where
  path : String
  fresh : Kind
  baseline : Kind
  deriving DecidableEq, Repr, Inhabited

structure Report where
  conflicts : List Conflict
  overloadsAdopted : Nat
  docsAdopted : Nat
  typesNarrowed : Nat
  deriving DecidableEq, Repr, Inhabited

def Note.conflict? (n : Note) : Option Conflict :=
  match n.finding with
  | .conflict fresh baseline => some ⟨dotted n.path, fresh, baseline⟩
  | _ => none

def Finding.isOverloadsAdopted : Finding → Bool
  | .overloadsAdopted _ => true
  | _ => false

def Finding.isTypeNarrowed : Finding → Bool
  | .typeNarrowed _ => true
  | _ => false

namespace Report

def ofNotes (notes : List Note) : Report where
  conflicts := notes.filterMap Note.conflict?
  overloadsAdopted := notes.countP (·.finding.isOverloadsAdopted)
  docsAdopted := notes.countP (·.finding == .docAdopted)
  typesNarrowed := notes.countP (·.finding.isTypeNarrowed)

/-- Nothing was changed and nothing is in conflict. -/
def isNoop (r : Report) : Bool :=
  r.conflicts.isEmpty && r.overloadsAdopted == 0 && r.docsAdopted == 0 && r.typesNarrowed == 0

end Report

def report (placeholder : TypeName) (base : Option Record) (fresh : Record) : Report :=
  .ofNotes (notes placeholder base fresh)

/-- The log line of a note; adopted doc texts are not logged. -/
def Note.logLine? (n : Note) : Option LogLine :=
  let member := ("member", dotted n.path)
  match n.finding with
  | .overloadsAdopted count =>
    some ⟨.debug, "adopting baseline overloads", [member, ("count", toString count)]⟩
  | .overloadsKept count =>
    some ⟨.debug, "has overloads, keeping fresh", [member, ("count", toString count)]⟩
  | .docAdopted => none
  | .typeNarrowed type =>
    some ⟨.debug, "replacing placeholder type", [member, ("narrowed", type.dotted)]⟩
  | .noRule kind => some ⟨.debug, "no merge rule for kind", [member, ("kind", kind.name)]⟩
  | .conflict fresh baseline =>
    some ⟨.warn, "kinds differ, keeping fresh entry",
      [member, ("fresh", fresh.name), ("baseline", baseline.name)]⟩

def log (notes : List Note) : List LogLine := notes.filterMap Note.logLine?

end CompletionDb.Merge
