import CompletionDb.Data.Basic

/-!
# MessagePack bytes of data

Each item starts with a head that tells its form and size. Texts, byte strings, lists and tables are
written with the shortest head that holds their size; integers keep their width. Items that only
JSON has are written as nil.
-/
namespace CompletionDb.Pack

/-- The `size` low bytes of a number, most significant first. -/
def bigEndian : (size : Nat) → Nat → List UInt8
  | 0, _ => []
  | size + 1, n => UInt8.ofNat (n / Nat.pow 256 size) :: bigEndian size n

def utf8 (s : String) : List UInt8 := s.toUTF8.data.toList

def textHead (size : Nat) : List UInt8 :=
  if size < 32 then [UInt8.ofNat (0xA0 + size)]
  else if size < 0x100 then 0xD9 :: bigEndian 1 size
  else if size < 0x10000 then 0xDA :: bigEndian 2 size
  else 0xDB :: bigEndian 4 size

def bytesHead (size : Nat) : List UInt8 :=
  if size < 0x100 then 0xC4 :: bigEndian 1 size
  else if size < 0x10000 then 0xC5 :: bigEndian 2 size
  else 0xC6 :: bigEndian 4 size

def extensionHead (size : Nat) : List UInt8 :=
  if size < 0x100 then 0xC7 :: bigEndian 1 size
  else if size < 0x10000 then 0xC8 :: bigEndian 2 size
  else 0xC9 :: bigEndian 4 size

def listHead (size : Nat) : List UInt8 :=
  if size < 16 then [UInt8.ofNat (0x90 + size)]
  else if size < 0x10000 then 0xDC :: bigEndian 2 size
  else 0xDD :: bigEndian 4 size

def tableHead (size : Nat) : List UInt8 :=
  if size < 16 then [UInt8.ofNat (0x80 + size)]
  else if size < 0x10000 then 0xDE :: bigEndian 2 size
  else 0xDF :: bigEndian 4 size

def unsignedBytes : Width → Nat → List UInt8
  | .w8, n => 0xCC :: bigEndian 1 n
  | .w16, n => 0xCD :: bigEndian 2 n
  | .w32, n => 0xCE :: bigEndian 4 n
  | .w64, n => 0xCF :: bigEndian 8 n

/-- Signed integers are written in two's complement. -/
def signedBytes : Width → Int → List UInt8
  | .w8, n => 0xD0 :: bigEndian 1 (n % 0x100).toNat
  | .w16, n => 0xD1 :: bigEndian 2 (n % 0x10000).toNat
  | .w32, n => 0xD2 :: bigEndian 4 (n % 0x100000000).toNat
  | .w64, n => 0xD3 :: bigEndian 8 (n % 0x10000000000000000).toNat

mutual
def write : Data → List UInt8
  | .null | .number _ | .unpaired => [0xC0]
  | .bool false => [0xC2]
  | .bool true => [0xC3]
  | .unsigned w n => unsignedBytes w n
  | .signed w n => signedBytes w n
  | .float image => (if image.length = 4 then 0xCA else 0xCB) :: image
  | .text s => textHead (utf8 s).length ++ utf8 s
  | .bytes b => bytesHead b.length ++ b
  | .extension tag payload => extensionHead payload.length ++ tag :: payload
  | .list items => listHead items.length ++ writeItems items
  | .table entries => tableHead entries.length ++ writeEntries entries

def writeItems : List Data → List UInt8
  | [] => []
  | d :: ds => write d ++ writeItems ds

def writeEntries : List (Data × Data) → List UInt8
  | [] => []
  | (k, v) :: rest => write k ++ write v ++ writeEntries rest
end

end CompletionDb.Pack
