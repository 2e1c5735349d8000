import CompletionDb.Data.Number
import CompletionDb.Record.Basic

/-!
# Self-describing data

Documents are read and written in two formats, JSON text and MessagePack bytes. Both carry the same
trees: scalars, lists and tables of entries in the order in which they stand. `Data` is that tree.
A few items exist in one format only: number literals and texts with half a surrogate pair in JSON;
sized integers, raw bytes, floats and extensions in MessagePack. Each format writes the items it has
and `null` for the others.

Keys of a table are data too, since MessagePack allows any item there. Repeated keys are kept: what
they mean depends on what the table stands for.
-/
namespace CompletionDb

/-- Size in bits of a MessagePack integer. The shortest unsigned form counts as 8 bits. -/
inductive Width
  | w8
  | w16
  | w32
  | w64
  deriving DecidableEq, Repr, Inhabited

inductive Data
  | null
  | bool (b : Bool)
  | number (n : Number)
  | unsigned (width : Width) (n : Nat)
  | signed (width : Width) (n : Int)
  | float (image : List UInt8)
  | text (s : String)
  /-- A text literal that escapes half of a surrogate pair. No text is meant by it. -/
  | unpaired
  | bytes (b : List UInt8)
  | extension (tag : UInt8) (payload : List UInt8)
  | list (items : List Data)
  | table (entries : List (Data × Data))
  deriving Repr, Inhabited

namespace Data

def ofNat (n : Nat) : Data := .number (Number.ofNat n)

/-- A table with text keys. -/
def object (fields : List (String × Data)) : Data := .table (fields.map fun f => (.text f.1, f.2))

mutual
/-- How deep a document nests. A list or a table is one level above all that is in it, and an
extension is a level of its own. -/
def levels : Data → Nat
  | .list items => levelsList items + 1
  | .table entries => levelsTable entries + 1
  | .extension .. => 1
  | .null | .bool _ | .number _ | .unsigned .. | .signed .. | .float _ | .text _ | .unpaired
  | .bytes _ => 0

def levelsList : List Data → Nat
  | [] => 0
  | d :: ds => max (levels d) (levelsList ds)

def levelsTable : List (Data × Data) → Nat
  | [] => 0
  | (k, v) :: rest => max (max (levels k) (levels v)) (levelsTable rest)
end

mutual
/-- Whether a document has no unpaired surrogate and no number beyond the range of a double. -/
def isSound : Data → Bool
  | .number n => n.isFinite
  | .unpaired => false
  | .list items => isSoundList items
  | .table entries => isSoundTable entries
  | .null | .bool _ | .unsigned .. | .signed .. | .float _ | .text _ | .bytes _
  | .extension .. => true

def isSoundList : List Data → Bool
  | [] => true
  | d :: ds => isSound d && isSoundList ds

def isSoundTable : List (Data × Data) → Bool
  | [] => true
  | (k, v) :: rest => isSound k && isSound v && isSoundTable rest
end

/-- Whether all of a document can be kept in memory, with room for so many levels. -/
def keepable (room : Nat) (d : Data) : Bool := d.levels ≤ room && d.isSound

/-- Sort the entries under text keys; the last of several under one key counts. -/
def sortEntries (entries : List (Data × Data)) : List (Data × Data) :=
  (Table.ofList (entries.filterMap fun (k, v) =>
    match k with
    | .text s => some (s, v)
    | _ => none)).map fun (k, v) => (.text k, v)

mutual
/-- The document with every table sorted. -/
def sorted : Data → Data
  | .list items => .list (sortedList items)
  | .table entries => .table (sortEntries (sortedTable entries))
  | .null => .null
  | .bool b => .bool b
  | .number n => .number n
  | .unsigned w n => .unsigned w n
  | .signed w n => .signed w n
  | .float image => .float image
  | .text s => .text s
  | .unpaired => .unpaired
  | .bytes b => .bytes b
  | .extension tag payload => .extension tag payload

def sortedList : List Data → List Data
  | [] => []
  | d :: ds => sorted d :: sortedList ds

def sortedTable : List (Data × Data) → List (Data × Data)
  | [] => []
  | (k, v) :: rest => (k, sorted v) :: sortedTable rest
end

end Data

end CompletionDb
