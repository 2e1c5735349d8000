import CompletionDb.Proofs.Tables

/-!
# Entries at a path

A path is a list of member names. It is followed through the member tables of type entries, one name
a step; entries of other kinds have no members to follow. What stands at a path of a record is how
the laws of merging and extraction speak about whole trees without recursion. Merging changes three
fields of the entries there: overloads, doc texts of callables and types of values.
-/
namespace CompletionDb

namespace Entry

/-- The members of an entry. Only types have any. -/
def members : Entry → Table Entry
  | .type _ members => members
  | .function _ | .method _ | .property _ | .data _ | .multiple _ | .typeRef _ | .moduleRef _ => []

/-- The entry at a path below an entry; the entry itself stands at the empty path. -/
def at? : Entry → List String → Option Entry
  | e, [] => some e
  | e, name :: path => (e.members.find? name).bind (at? · path)

@[simp] theorem at?_nil (e : Entry) : e.at? [] = some e := rfl

@[simp] theorem at?_cons (e : Entry) (name : String) (path : List String) :
    e.at? (name :: path) = (e.members.find? name).bind (at? · path) := rfl

theorem at?_append (e : Entry) (path rest : List String) :
    e.at? (path ++ rest) = (e.at? path).bind (at? · rest) := by
  induction path generalizing e with
  | nil => rfl
  | cons name path ih =>
      rw [List.cons_append, at?_cons, at?_cons]
      cases e.members.find? name with
      | none => rfl
      | some m => exact ih m

/-- Only a type has members, so whatever has something below it is a type. -/
theorem kind_of_at?_cons {e d : Entry} {name : String} {path : List String}
    (h : e.at? (name :: path) = some d) : e.kind = .type := by
  cases e with
  | type info members => rfl
  | _ => simp [members] at h

/-! ## Fields of an entry -/

/-- The callable in a function or method entry. -/
def callable? : Entry → Option Callable
  | .function f | .method f => some f
  | .property _ | .data _ | .type _ _ | .multiple _ | .typeRef _ | .moduleRef _ => none

/-- The value in a property or data entry. -/
def attribute? : Entry → Option Attribute
  | .property a | .data a => some a
  | .function _ | .method _ | .type _ _ | .multiple _ | .typeRef _ | .moduleRef _ => none

def overloads? (e : Entry) : Option (List Overload) := e.callable?.map Callable.overloads

/-- The doc text of a function or method, which may have none. -/
def callableDoc? (e : Entry) : Option (Option String) := e.callable?.map Callable.doc

def valueType? (e : Entry) : Option TypeName := e.attribute?.map Attribute.type

end Entry

namespace Record

/-- The entry at a path of a record. No entry stands at the empty path: that is the record. -/
def at? (r : Record) : List String → Option Entry
  | [] => none
  | name :: path => (r.members.find? name).bind (Entry.at? · path)

@[simp] theorem at?_cons (r : Record) (name : String) (path : List String) :
    r.at? (name :: path) = (r.members.find? name).bind (Entry.at? · path) := rfl

theorem at?_append {r : Record} {path : List String} (hne : path ≠ []) (rest : List String) :
    r.at? (path ++ rest) = (r.at? path).bind (Entry.at? · rest) := by
  obtain ⟨name, path, rfl⟩ := List.exists_cons_of_ne_nil hne
  rw [List.cons_append, at?_cons, at?_cons]
  cases r.members.find? name with
  | none => rfl
  | some m => exact m.at?_append path rest

/-- Every proper prefix of a path is a type entry of the record. -/
def TypesAbove (r : Record) (path : List String) : Prop :=
  ∀ above, above ≠ [] → above <+: path → above ≠ path →
    ∃ e, r.at? above = some e ∧ e.kind = .type

/-- What stands at a path stands below types. -/
theorem typesAbove_of_at? {r : Record} {path : List String} {e : Entry}
    (h : r.at? path = some e) : r.TypesAbove path := by
  intro above hne hpre hproper
  obtain ⟨rest, rfl⟩ := hpre
  cases rest with
  | nil => exact absurd (List.append_nil above).symm hproper
  | cons name rest =>
      rw [at?_append hne, Option.bind_eq_some_iff] at h
      obtain ⟨d, hd, hbelow⟩ := h
      exact ⟨d, hd, Entry.kind_of_at?_cons hbelow⟩

end Record
end CompletionDb
