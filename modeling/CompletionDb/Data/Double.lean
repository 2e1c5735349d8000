/-!
# Doubles

Non-negative binary floating-point numbers with 53 bits of precision, as exact integers: `mantissa`
times two to the `exponent`. `round` takes an exact quotient to the nearest of them, a tie to the
even one; products and quotients are rounded from their exact values. `digits` finds the shortest
decimal that reads back as the same double, and of several the nearest.
-/
namespace CompletionDb

structure Double where
  mantissa : Nat
  exponent : Int
  deriving DecidableEq, Repr, Inhabited

namespace Double

def precision : Nat := 53

/-- Exponent of the smallest positive double. -/
def minExponent : Int := -1074

/-- Largest exponent of a mantissa with all bits. -/
def maxExponent : Int := 971

def zero : Double := ⟨0, minExponent⟩

def scale (num den : Nat) (power : Int) : Nat × Nat :=
  if 0 ≤ power then (num * Nat.pow 2 power.toNat, den) else (num, den * Nat.pow 2 (-power).toNat)

/-- Nearest integer to a quotient, ties to even. -/
def nearest (num den : Nat) : Nat :=
  let q := num / den
  let r := num % den
  if 2 * r < den then q else if den < 2 * r then q + 1 else if q % 2 = 0 then q else q + 1

/-- The exponent of the last mantissa bit of a positive quotient. -/
def unitOf (num den : Nat) : Int :=
  let guess : Int := (num.log2 : Int) - (den.log2 : Int)
  let (n, d) := scale num den (-guess)
  let top := if n < d then guess - 1 else guess
  max (top - (precision - 1)) minExponent

/-- The double nearest to a quotient, or `none` if that is beyond the largest one. -/
def round (num den : Nat) : Option Double :=
  if num = 0 then some zero
  else
    let unit := unitOf num den
    let (n, d) := scale num den (-unit)
    let m := nearest n d
    let result : Double :=
      if m = Nat.pow 2 precision then ⟨Nat.pow 2 (precision - 1), unit + 1⟩ else ⟨m, unit⟩
    if maxExponent < result.exponent then none else some result

def toRatio (x : Double) : Nat × Nat := scale x.mantissa 1 x.exponent

def mul (x y : Double) : Option Double :=
  round (x.toRatio.1 * y.toRatio.1) (x.toRatio.2 * y.toRatio.2)

def div (x y : Double) : Option Double :=
  round (x.toRatio.1 * y.toRatio.2) (x.toRatio.2 * y.toRatio.1)

/-- Largest power of ten in the range of doubles. -/
def maxPower : Nat := 308

/-- `significand` times ten to the `exponent`, with one rounding for the significand, one for the
power and one for their product or quotient. Powers below the range are divided off in two steps. -/
def ofDecimal (significand : Nat) (exponent : Int) : Option Double :=
  if significand = 0 then some zero
  else if (maxPower : Int) < exponent then none
  else do
    let s ← round significand 1
    if 0 ≤ exponent then mul s (← round (Nat.pow 10 exponent.toNat) 1)
    else if -(maxPower : Int) ≤ exponent then div s (← round (Nat.pow 10 (-exponent).toNat) 1)
    else if -(2 * maxPower : Int) ≤ exponent then
      let small ← div s (← round (Nat.pow 10 maxPower) 1)
      div small (← round (Nat.pow 10 (-exponent - maxPower).toNat) 1)
    else some zero

/-- The decimals `d` and `d + 1` next to the double on the grid of multiples of ten to the `power`,
nearest first. -/
def neighbours (x : Double) (power : Int) : List Nat :=
  let (n, d) := x.toRatio
  let (n, d) :=
    if 0 ≤ power then (n, d * Nat.pow 10 power.toNat) else (n * Nat.pow 10 (-power).toNat, d)
  let low := n / d
  if 2 * (n % d) < d then [low, low + 1]
  else if d < 2 * (n % d) then [low + 1, low]
  else if low % 2 = 0 then [low, low + 1] else [low + 1, low]

/-- Whether a decimal is nearer to this double than to any other. -/
def readsBack (x : Double) (digits : Nat) (power : Int) : Bool :=
  if 0 ≤ power then round (digits * Nat.pow 10 power.toNat) 1 == some x
  else round digits (Nat.pow 10 (-power).toNat) == some x

def shortestFrom (x : Double) : Nat → Int → Nat × Int
  | 0, power => ((neighbours x power).headD 0, power)
  | steps + 1, power =>
    -- The coarsest grid on which a neighbour reads back needs the fewest digits.
    match (neighbours x power).find? (readsBack x · power) with
    | some digits => (digits, power)
    | none => shortestFrom x steps (power - 1)

def decimalLength (n : Nat) : Nat := (Nat.toDigits 10 n).length

def dropZeros : Nat → Nat → Int → Nat × Int
  | 0, digits, power => (digits, power)
  | steps + 1, digits, power =>
    if digits ≠ 0 ∧ digits % 10 = 0 then dropZeros steps (digits / 10) (power + 1)
    else (digits, power)

/-- The shortest decimal of a positive double: digits without zeros at the end, and a power. -/
def digits (x : Double) : Nat × Int :=
  let (n, d) := x.toRatio
  let top : Int :=
    if d ≤ n then decimalLength (n / d) else 1 - (decimalLength (d / max n 1) : Int)
  let (ds, power) := shortestFrom x 18 top
  dropZeros 400 ds power

def signed (n : Int) : List Char := (if n < 0 then '-' else '+') :: Nat.toDigits 10 n.natAbs

/-- The text of a double. The point is written out while it stands within sixteen digits, and down
to four zeros after it; beyond that the text has an exponent with a sign. -/
def text (x : Double) : List Char :=
  if x.mantissa = 0 then ['0', '.', '0']
  else
    let (ds, power) := x.digits
    let cs := Nat.toDigits 10 ds
    let point : Int := cs.length + power
    if 0 ≤ power ∧ point ≤ 16 then cs ++ List.replicate power.toNat '0' ++ ['.', '0']
    else if 0 < point ∧ point ≤ 16 then
      cs.take point.toNat ++ '.' :: cs.drop point.toNat
    else if -5 < point ∧ point ≤ 0 then
      ['0', '.'] ++ List.replicate (-point).toNat '0' ++ cs
    else
      let mark := 'e' :: signed (point - 1)
      match cs with
      | [] => mark
      | [c] => c :: mark
      | c :: rest => c :: '.' :: rest ++ mark

end Double

end CompletionDb
