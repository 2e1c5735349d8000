import CompletionDb.Data.Double

/-!
# Number literals

A JSON number is kept as it was written: sign, whole part, digits after the point, exponent. Plain
whole numbers are read exactly up to 64 bits. Every other literal means a double: its leading digits
that fit in 64 bits, scaled by a power of ten; later digits are dropped.
-/
namespace CompletionDb

structure Number where
  negative : Bool := false
  whole : Nat
  fraction : List Nat := []
  exponent : Option Int := none
  deriving DecidableEq, Repr, Inhabited

namespace Number

def ofNat (n : Nat) : Number := { whole := n }

def maxNatural : Nat := UInt64.size - 1

/-- Whether the literal is digits alone, perhaps after a minus sign. -/
def isWhole (x : Number) : Bool := x.fraction.isEmpty && x.exponent.isNone

/-- The natural number that the literal spells, if it has 64 bits. -/
def natural? (x : Number) : Option Nat :=
  if x.isWhole && !x.negative && x.whole ≤ maxNatural then some x.whole else none

/-- The magnitude of the negative integer that the literal spells, if it has 64 bits. -/
def negative? (x : Number) : Option Nat :=
  if x.isWhole && x.negative && 0 < x.whole && x.whole ≤ 0x8000000000000000 then some x.whole
  else none

structure Scan where
  significand : Nat := 0
  power : Int := 0
  /-- Set once a digit no longer fitted. -/
  full : Bool := false

def Scan.whole (s : Scan) (digit : Nat) : Scan :=
  if !s.full && s.significand * 10 + digit ≤ maxNatural then
    { s with significand := s.significand * 10 + digit }
  else { s with power := s.power + 1, full := true }

def Scan.fraction (s : Scan) (digit : Nat) : Scan :=
  if !s.full && s.significand * 10 + digit ≤ maxNatural then
    { s with significand := s.significand * 10 + digit, power := s.power - 1 }
  else { s with full := true }

def scan (x : Number) : Scan :=
  let whole := ((Nat.toDigits 10 x.whole).map (·.toNat - 48)).foldl Scan.whole {}
  -- A digit after the point may fit where one before it did not.
  x.fraction.foldl Scan.fraction { whole with full := false }

/-- Exponents with more than 31 bits. -/
def isHugeExponent (e : Int) : Bool := 0x80000000 ≤ e.natAbs

/-- The magnitude of the double that the literal means, if it is in range. -/
def double? (x : Number) : Option Double :=
  let s := x.scan
  match x.exponent with
  | none => Double.ofDecimal s.significand s.power
  | some e =>
    if isHugeExponent e then
      if 0 < e && s.significand ≠ 0 then none else some Double.zero
    else Double.ofDecimal s.significand (s.power + e)

def isFinite (x : Number) : Bool := x.natural?.isSome || x.negative?.isSome || x.double?.isSome

def text (x : Number) : List Char :=
  match x.natural?, x.negative?, x.double? with
  | some n, _, _ => Nat.toDigits 10 n
  | none, some n, _ => '-' :: Nat.toDigits 10 n
  | none, none, some d => if x.negative then '-' :: d.text else d.text
  | none, none, none => ['n', 'u', 'l', 'l']

end Number

end CompletionDb
