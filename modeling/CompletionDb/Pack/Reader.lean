import CompletionDb.Pack.Writer

/-!
# Reading MessagePack bytes

Heads of every width are read, whether or not they are the shortest. A text whose bytes are not
UTF-8 is a byte string. Lists and tables nest up to a limit; `room` is how much of it is left. The
bytes after the item are returned, so what follows a document is the caller's concern.

Documents may nest `maxDepth` levels, but not every table counts as a level everywhere. Whoever
gives the item a shape does the counting; here one level more is read, which no shape exceeds.
-/
namespace CompletionDb.Pack

/-- Nesting limit for documents. -/
def maxDepth : Nat := 1023

/-- Take a number of bytes, if there are that many; `taken` holds those before them, last first. -/
def takeFrom (taken : List UInt8) : Nat → List UInt8 → Option (List UInt8 × List UInt8)
  | 0, bs => some (taken.reverse, bs)
  | _ + 1, [] => none
  | n + 1, b :: bs => takeFrom (b :: taken) n bs

def take (n : Nat) (bs : List UInt8) : Option (List UInt8 × List UInt8) := takeFrom [] n bs

def ofBigEndian (bs : List UInt8) : Nat := bs.foldl (fun n b => n * 256 + b.toNat) 0

/-- Read a number of a given size in bytes. -/
def readNat (size : Nat) (bs : List UInt8) : Option (Nat × List UInt8) :=
  (take size bs).map fun (b, rest) => (ofBigEndian b, rest)

/-- A number read as two's complement. -/
def toSigned (bits n : Nat) : Int :=
  if n < Nat.pow 2 (bits - 1) then n else (n : Int) - Nat.pow 2 bits

/-- What a byte string means where a text was announced. -/
def ofTextBytes (bs : List UInt8) : Data :=
  match String.fromUTF8? ⟨bs.toArray⟩ with
  | some s => .text s
  | none => .bytes bs

/-- The start of an item: a whole item, or the size of a list or table whose items follow. -/
inductive Head
  | item (d : Data)
  | list (size : Nat)
  | table (size : Nat)

/-- Read a size and then so many bytes. -/
def readSized (size : Nat) (make : List UInt8 → Data) (bs : List UInt8) :
    Option (Head × List UInt8) :=
  match readNat size bs with
  | none => none
  | some (n, rest) => (take n rest).map fun (b, rest) => (.item (make b), rest)

/-- Read `size` bytes of tag and payload. -/
def readExtension (size : Nat) (bs : List UInt8) : Option (Head × List UInt8) :=
  match bs with
  | [] => none
  | tag :: bs => (take size bs).map fun (b, rest) => (.item (.extension tag b), rest)

def readSizedExtension (size : Nat) (bs : List UInt8) : Option (Head × List UInt8) :=
  match readNat size bs with
  | none => none
  | some (n, rest) => readExtension n rest

def readCount (size : Nat) (make : Nat → Head) (bs : List UInt8) : Option (Head × List UInt8) :=
  (readNat size bs).map fun (n, rest) => (make n, rest)

def readUnsigned (size : Nat) (width : Width) (bs : List UInt8) : Option (Head × List UInt8) :=
  (readNat size bs).map fun (n, rest) => (.item (.unsigned width n), rest)

def readSigned (size : Nat) (width : Width) (bs : List UInt8) : Option (Head × List UInt8) :=
  (readNat size bs).map fun (n, rest) => (.item (.signed width (toSigned (8 * size) n)), rest)

/-- Heads with a byte of their own, from `C0` to `DF`. -/
def readMarked (mark : Nat) (bs : List UInt8) : Option (Head × List UInt8) :=
  match mark with
  | 0xC0 => some (.item .null, bs)
  | 0xC2 => some (.item (.bool false), bs)
  | 0xC3 => some (.item (.bool true), bs)
  | 0xC4 => readSized 1 .bytes bs
  | 0xC5 => readSized 2 .bytes bs
  | 0xC6 => readSized 4 .bytes bs
  | 0xC7 => readSizedExtension 1 bs
  | 0xC8 => readSizedExtension 2 bs
  | 0xC9 => readSizedExtension 4 bs
  | 0xCA => (take 4 bs).map fun (b, rest) => (.item (.float b), rest)
  | 0xCB => (take 8 bs).map fun (b, rest) => (.item (.float b), rest)
  | 0xCC => readUnsigned 1 .w8 bs
  | 0xCD => readUnsigned 2 .w16 bs
  | 0xCE => readUnsigned 4 .w32 bs
  | 0xCF => readUnsigned 8 .w64 bs
  | 0xD0 => readSigned 1 .w8 bs
  | 0xD1 => readSigned 2 .w16 bs
  | 0xD2 => readSigned 4 .w32 bs
  | 0xD3 => readSigned 8 .w64 bs
  | 0xD4 => readExtension 1 bs
  | 0xD5 => readExtension 2 bs
  | 0xD6 => readExtension 4 bs
  | 0xD7 => readExtension 8 bs
  | 0xD8 => readExtension 16 bs
  | 0xD9 => readSized 1 ofTextBytes bs
  | 0xDA => readSized 2 ofTextBytes bs
  | 0xDB => readSized 4 ofTextBytes bs
  | 0xDC => readCount 2 .list bs
  | 0xDD => readCount 4 .list bs
  | 0xDE => readCount 2 .table bs
  | 0xDF => readCount 4 .table bs
  | _ => none

def readHead : List UInt8 → Option (Head × List UInt8)
  | [] => none
  | b :: bs =>
    let mark := b.toNat
    if mark < 0x80 then some (.item (.unsigned .w8 mark), bs)
    else if mark < 0x90 then some (.table (mark - 0x80), bs)
    else if mark < 0xA0 then some (.list (mark - 0x90), bs)
    else if mark < 0xC0 then
      (take (mark - 0xA0) bs).map fun (t, rest) => (.item (ofTextBytes t), rest)
    else if mark < 0xE0 then readMarked mark bs
    else some (.item (.signed .w8 ((mark : Int) - 0x100)), bs)

/-- Read a number of items, with those before them last first. -/
def readItems (item : List UInt8 → Option (Data × List UInt8)) (done : List Data) :
    Nat → List UInt8 → Option (List Data × List UInt8)
  | 0, bs => some (done.reverse, bs)
  | n + 1, bs =>
    match item bs with
    | none => none
    | some (d, rest) => readItems item (d :: done) n rest

/-- Read a number of entries, with those before them last first. -/
def readEntries (item : List UInt8 → Option (Data × List UInt8)) (done : List (Data × Data)) :
    Nat → List UInt8 → Option (List (Data × Data) × List UInt8)
  | 0, bs => some (done.reverse, bs)
  | n + 1, bs =>
    match item bs with
    | none => none
    | some (k, rest) =>
      match item rest with
      | none => none
      | some (v, rest) => readEntries item ((k, v) :: done) n rest

/-- Read one item with room for so many levels of lists and tables. -/
def readItem : (room : Nat) → List UInt8 → Option (Data × List UInt8)
  | room, bs =>
    match readHead bs with
    | none => none
    | some (.item d, rest) => some (d, rest)
    | some (.list n, rest) =>
      match room with
      | 0 => none
      | room + 1 => (readItems (readItem room) [] n rest).map fun (ds, rest) => (.list ds, rest)
    | some (.table n, rest) =>
      match room with
      | 0 => none
      | room + 1 => (readEntries (readItem room) [] n rest).map fun (es, rest) => (.table es, rest)

/-- Read the item at the start of the bytes. -/
def read (bs : List UInt8) : Option (Data × List UInt8) := readItem (maxDepth + 1) bs

end CompletionDb.Pack
