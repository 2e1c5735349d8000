import CompletionDb.Record.Basic

/-!
# Merging a fresh record with an older one

A fresh record decides which members exist and of which kind they are. From the baseline, an older
record of the same module, it takes what it does not know itself, member by member, where both have
an entry of the same kind:

* a callable without overloads takes the baseline's, and so for its doc text;
* a property or datum of the placeholder type takes the baseline's type;
* of two types the member tables are merged in the same way, and nothing else;
* any other entry stays as it is.

Members that only the baseline has are dropped. Kinds that differ are a conflict: the fresh entry
stays, and nothing below it is merged.
-/
namespace CompletionDb.Merge

/-- Take over the overloads and the doc text that a fresh callable lacks. -/
def adopt (base fresh : Callable) : Callable :=
  { fresh with
    overloads := if fresh.overloads.isEmpty then base.overloads else fresh.overloads
    doc := fresh.doc.or base.doc }

/-- Take over the type in place of the placeholder. -/
def narrow (placeholder : TypeName) (base fresh : Attribute) : Attribute :=
  { fresh with type := if fresh.type = placeholder then base.type else fresh.type }

mutual
def entry (placeholder : TypeName) : (base fresh : Entry) → Entry
  | .type _ old, .type info members => .type info (table placeholder old members)
  | .function old, .function f => .function (adopt old f)
  | .method old, .method f => .method (adopt old f)
  | .property old, .property a => .property (narrow placeholder old a)
  | .data old, .data a => .data (narrow placeholder old a)
  | _, fresh => fresh

/-- Merge each fresh member that the baseline table knows. -/
def table (placeholder : TypeName) (base : List (String × Entry)) :
    List (String × Entry) → List (String × Entry)
  | [] => []
  | (name, fresh) :: rest =>
    (name,
      match Table.find? base name with
      | some old => entry placeholder old fresh
      | none => fresh) :: table placeholder base rest
end

def record (placeholder : TypeName) (base : Option Record) (fresh : Record) : Record :=
  match base with
  | none => fresh
  | some base => { fresh with members := table placeholder base.members fresh.members }

end CompletionDb.Merge
