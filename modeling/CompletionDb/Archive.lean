import CompletionDb.Pack.Reader
import CompletionDb.Record.Layout

/-!
# Archived records

An archived record is a header, four letters and a version, and then the record in MessagePack. The
header is checked before anything else is looked at: its length, its letters, its version, in that
order. Bytes after the record are ignored.
-/
namespace CompletionDb.Archive

/-- The letters `IDB` and a zero byte. -/
def magic : List UInt8 := [0x49, 0x44, 0x42, 0x00]

def version : Nat := 1

def headerSize : Nat := 6

inductive Error
  | truncated (length : Nat)
  | badMagic
  | unsupportedVersion (found : Nat)
  | malformed
  deriving DecidableEq, Repr, Inhabited

def Error.message : Error → String
  | .truncated length =>
    "truncated input: " ++ toString length ++ " bytes, header needs " ++ toString headerSize
  | .badMagic => "not an idb file (bad magic)"
  | .unsupportedVersion found =>
    "unsupported format version " ++ toString found ++ " (expected " ++ toString version ++ ")"
  | .malformed => "decode error: not a module record"

def encode (r : Record) : List UInt8 := magic ++ [1, 0] ++ Pack.write r.toData

/-- The record at the start of a payload. -/
def decodePayload (bs : List UInt8) : Option Record := do
  let (d, _) ← Pack.read bs
  Record.ofData? .pack Pack.maxDepth d

def decode (bs : List UInt8) : Except Error Record :=
  if bs.length < headerSize then .error (.truncated bs.length)
  else
    match bs with
    | a :: b :: c :: d :: low :: high :: payload =>
      let found := low.toNat + 256 * high.toNat
      if [a, b, c, d] ≠ magic then .error .badMagic
      else if found ≠ version then .error (.unsupportedVersion found)
      else
        match decodePayload payload with
        | some r => .ok r
        | none => .error .malformed
    | _ => .error (.truncated bs.length)

end CompletionDb.Archive
