import CompletionDb.Data.Basic

/-!
# Reading shapes from data

Structures are read from a table whose keys name the fields, or from a list that gives the fields
in order and may stop early. Unknown keys are ignored, repeated field names are refused. In
MessagePack a key may also be a byte string or the number of the field; choices between names are
read in the same way. `null` counts as absent where a field is optional and nowhere else.

In MessagePack a byte string is at the same time a list of its bytes. No item that is read here is a
byte, so this matters for the empty byte string alone, which is an empty list.

Every list or table that is read takes one level of `room`; byte strings take none. In MessagePack
the table from one key that stands for a choice takes none either, and the values under unknown keys
have to fit in the room that is left, extensions included. In JSON they may nest as they like.

A value that stands before the key that tells how to read it is held in memory first. Held values
are read a little differently: a choice has to be a text, or a table from one key; field numbers
have to have 8 or 64 bits, or to be plain JSON numbers; an empty table stands for nothing; and a
byte string is no list.
-/
namespace CompletionDb

/-- Where a value is read from: JSON text, MessagePack bytes, or memory where it has been held. -/
inductive Reading
  | json
  | pack
  | held
  deriving DecidableEq, Repr, Inhabited

namespace Data

/-! ## Scalars -/

def ofBytes? (b : List UInt8) : Option String := String.fromUTF8? ⟨b.toArray⟩

/-- A text, or a byte string that is UTF-8. -/
def text? : Data → Option String
  | .text s => some s
  | .bytes b => ofBytes? b
  | _ => none

def bool? : Data → Option Bool
  | .bool b => some b
  | _ => none

def natural? : Data → Option Nat
  | .number n => n.natural?
  | _ => none

/-! ## Lists and tables -/

def list? (how : Reading) (room : Nat) : Data → Option (List Data)
  | .list items => if room = 0 then none else some items
  | .bytes [] => if how = .pack then some [] else none
  | _ => none

def table? (room : Nat) : Data → Option (List (Data × Data))
  | .table entries => if room = 0 then none else some entries
  | _ => none

def listOf? {α : Type} (how : Reading) (room : Nat) (item : Data → Option α) (d : Data) :
    Option (List α) := do
  (← d.list? how room).mapM item

def entryOf? {α : Type} (value : Data → Option α) (entry : Data × Data) : Option (String × α) := do
  return (← entry.1.text?, ← value entry.2)

/-- A table from texts whose values are all read in one way. The last of several entries under one
key counts. -/
def tableOf? {α : Type} (room : Nat) (value : Data → Option α) (d : Data) :
    Option (Table α) := do
  return Table.ofList (← (← d.table? room).mapM (entryOf? value))

def pair? (room : Nat) : Data → Option (String × String)
  | .list [a, b] => if room = 0 then none else do return (← a.text?, ← b.text?)
  | _ => none

/-! ## Choices and fields -/

def widthAllowed (how : Reading) : Width → Bool
  | .w8 | .w64 => true
  | .w16 | .w32 => how ≠ .held

/-- The position of a key among names: `none` if it cannot be a key, `some none` if it is none of
the names. -/
def position? (how : Reading) (names : List String) : Data → Option (Option Nat)
  | .text s => some (names.idxOf? s)
  | .bytes b => some ((ofBytes? b).bind names.idxOf?)
  | .unsigned w n =>
    if widthAllowed how w then some (if n < names.length then some n else none) else none
  | .number x =>
    if how = .held then x.natural?.map fun n => if n < names.length then some n else none else none
  | _ => none

/-- Nothing, as the value in a table that stands for a choice. -/
def isNothing (how : Reading) : Data → Bool
  | .null => true
  | .table [] => how = .held
  | _ => false

def choice? (how : Reading) (names : List String) (room : Nat) : Data → Option Nat
  | .table [(key, value)] =>
    if (room = 0 && how ≠ .pack) || !isNothing how value then none
    else (position? how names key).join
  | .text s => names.idxOf? s
  | d@(.bytes _) | d@(.unsigned ..) =>
    if how = .held then none else (position? how names d).join
  | _ => none

def ignorable (how : Reading) (room : Nat) (d : Data) : Bool := how ≠ .pack || d.levels ≤ room

/-- Put the values of a table in the places of their fields. -/
def fill (how : Reading) (names : List String) (room : Nat) :
    List (Data × Data) → List (Option Data) → Option (List (Option Data))
  | [], slots => some slots
  | (key, value) :: rest, slots =>
    match position? how names key with
    | none => none
    | some none => if value.ignorable how room then fill how names room rest slots else none
    | some (some i) =>
      match slots[i]? with
      | some none => fill how names room rest (slots.set i (some value))
      | _ => none

/-- The values of the fields of a structure, in the order of the names. -/
def fields? (how : Reading) (names : List String) (room : Nat) :
    Data → Option (List (Option Data))
  | .list items =>
    if room = 0 || names.length < items.length then none
    else some (items.map some ++ List.replicate (names.length - items.length) none)
  | .table entries =>
    if room = 0 then none
    else fill how names (room - 1) entries (List.replicate names.length none)
  | .bytes [] => if how = .pack then some (List.replicate names.length none) else none
  | _ => none

/-- A field that may be missing. -/
def fieldOr {α : Type} (default : α) (read : Data → Option α) : Option Data → Option α
  | none => some default
  | some d => read d

/-- A field that may be missing or null. -/
def optional? {α : Type} (read : Data → Option α) : Option Data → Option (Option α)
  | none | some .null => some none
  | some d => (read d).map some

def optionalField {α : Type} (name : String) (print : α → Data) :
    Option α → List (String × Data)
  | none => []
  | some a => [(name, print a)]

end Data

end CompletionDb
