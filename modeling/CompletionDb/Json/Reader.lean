import CompletionDb.Data.Basic

/-!
# Reading JSON text

Strict JSON: no comments, no commas at the end, no leading zeros, no control characters inside a
text. The reader keeps every item, also those that no record can use (numbers of any size, texts
with half a surrogate pair), because items that are skipped may be any of these. It has no limit on
nesting either; limits belong to what is kept of a document.

The recursion is bounded by a count that starts at the length of the text: each step into a value
or past a comma reads at least one character.
-/
namespace CompletionDb.Json

/-- Nesting limit of what is kept of a document. -/
def maxDepth : Nat := 127

def isSpace (c : Char) : Bool := c == ' ' || c == '\n' || c == '\t' || c == '\r'

def skipSpace (cs : List Char) : List Char := cs.dropWhile isSpace

def isDigit (c : Char) : Bool := '0' ≤ c && c ≤ '9'

def digit (c : Char) : Nat := c.toNat - '0'.toNat

def ofDigits (cs : List Char) : Nat := cs.foldl (fun n c => 10 * n + digit c) 0

/-! ## Texts -/

def hexValue? (c : Char) : Option Nat :=
  if '0' ≤ c ∧ c ≤ '9' then some (c.toNat - '0'.toNat)
  else if 'a' ≤ c ∧ c ≤ 'f' then some (c.toNat - 'a'.toNat + 10)
  else if 'A' ≤ c ∧ c ≤ 'F' then some (c.toNat - 'A'.toNat + 10)
  else none

/-- A UTF-16 unit from its four hexadecimal digits. -/
def unit? (a b c d : Char) : Option Nat := do
  return (((← hexValue? a) * 16 + (← hexValue? b)) * 16 + (← hexValue? c)) * 16 + (← hexValue? d)

def isHighSurrogate (n : Nat) : Bool := 0xD800 ≤ n && n < 0xDC00

def isLowSurrogate (n : Nat) : Bool := 0xDC00 ≤ n && n < 0xE000

def joinSurrogates (high low : Nat) : Char :=
  Char.ofNat (0x10000 + (high - 0xD800) * 0x400 + (low - 0xDC00))

def shortEscape? (c : Char) : Option Char :=
  if c = '"' then some '"'
  else if c = '\\' then some '\\'
  else if c = '/' then some '/'
  else if c = 'b' then some '\x08'
  else if c = 'f' then some '\x0c'
  else if c = 'n' then some '\n'
  else if c = 'r' then some '\r'
  else if c = 't' then some '\t'
  else none

/-- A text literal read up to some point. -/
structure Literal where
  /-- Characters so far, last first. -/
  chars : List Char := []
  /-- A high surrogate that waits for its low one. -/
  high : Option Nat := none
  /-- No surrogate was left alone so far. -/
  paired : Bool := true

namespace Literal

def push (l : Literal) (c : Char) : Literal :=
  { chars := c :: l.chars, paired := l.paired && l.high.isNone }

/-- Add an escaped UTF-16 unit. -/
def pushUnit (l : Literal) (n : Nat) : Literal :=
  if isHighSurrogate n then { l with high := some n, paired := l.paired && l.high.isNone }
  else if isLowSurrogate n then
    match l.high with
    | some high => { l with chars := joinSurrogates high n :: l.chars, high := none }
    | none => { l with paired := false }
  else l.push (Char.ofNat n)

def finish (l : Literal) : Data :=
  if l.paired && l.high.isNone then .text (String.ofList l.chars.reverse) else .unpaired

end Literal

/-- Read a text literal after its opening quote. -/
def readText (l : Literal) : List Char → Option (Data × List Char)
  | [] => none
  | '"' :: cs => some (l.finish, cs)
  | '\\' :: 'u' :: a :: b :: c :: d :: cs =>
    match unit? a b c d with
    | some n => readText (l.pushUnit n) cs
    | none => none
  | '\\' :: e :: cs =>
    match shortEscape? e with
    | some c => readText (l.push c) cs
    | none => none
  | c :: cs => if c.toNat < 0x20 ∨ c = '\\' then none else readText (l.push c) cs

/-! ## Numbers -/

/-- The digits of the whole part: a zero alone, or digits that do not start with zero. -/
def readWhole (cs : List Char) : Option (Nat × List Char) :=
  match cs.takeWhile isDigit with
  | [] => none
  | '0' :: _ :: _ => none
  | ds => some (ofDigits ds, cs.dropWhile isDigit)

def readFraction : List Char → Option (List Nat × List Char)
  | '.' :: cs =>
    match cs.takeWhile isDigit with
    | [] => none
    | ds => some (ds.map digit, cs.dropWhile isDigit)
  | cs => some ([], cs)

def readPower (negative : Bool) (cs : List Char) : Option (Option Int × List Char) :=
  match cs.takeWhile isDigit with
  | [] => none
  | ds =>
    let n : Int := ofDigits ds
    some (some (if negative then -n else n), cs.dropWhile isDigit)

def readExponent : List Char → Option (Option Int × List Char)
  | c :: cs =>
    if c = 'e' ∨ c = 'E' then
      match cs with
      | '+' :: rest => readPower false rest
      | '-' :: rest => readPower true rest
      | rest => readPower false rest
    else some (none, c :: cs)
  | [] => some (none, [])

/-- Read a number after its sign. -/
def readMagnitude (negative : Bool) (cs : List Char) : Option (Data × List Char) :=
  match readWhole cs with
  | none => none
  | some (whole, cs) =>
    match readFraction cs with
    | none => none
    | some (fraction, cs) =>
      match readExponent cs with
      | none => none
      | some (exponent, cs) => some (.number { negative, whole, fraction, exponent }, cs)

/-! ## Values -/

mutual
/-- Read a value; blanks may stand before it. -/
def readValue : Nat → List Char → Option (Data × List Char)
  | 0, _ => none
  | fuel + 1, cs =>
    match skipSpace cs with
    | [] => none
    | 'n' :: 'u' :: 'l' :: 'l' :: rest => some (.null, rest)
    | 't' :: 'r' :: 'u' :: 'e' :: rest => some (.bool true, rest)
    | 'f' :: 'a' :: 'l' :: 's' :: 'e' :: rest => some (.bool false, rest)
    | '"' :: rest => readText {} rest
    | '-' :: rest => readMagnitude true rest
    | '[' :: rest =>
      match skipSpace rest with
      | ']' :: rest => some (.list [], rest)
      | _ => readItems fuel [] rest
    | '\x7b' :: rest =>
      match skipSpace rest with
      | '\x7d' :: rest => some (.table [], rest)
      | _ => readEntries fuel [] rest
    | rest => readMagnitude false rest

/-- Read the items of a list, with those before them last first. -/
def readItems : Nat → List Data → List Char → Option (Data × List Char)
  | 0, _, _ => none
  | fuel + 1, done, cs =>
    match readValue fuel cs with
    | none => none
    | some (item, rest) =>
      match skipSpace rest with
      | ',' :: rest => readItems fuel (item :: done) rest
      | ']' :: rest => some (.list (item :: done).reverse, rest)
      | _ => none

def readEntries : Nat → List (Data × Data) → List Char → Option (Data × List Char)
  | 0, _, _ => none
  | fuel + 1, done, cs =>
    match skipSpace cs with
    | '"' :: rest =>
      match readText {} rest with
      | none => none
      | some (key, rest) =>
        match skipSpace rest with
        | ':' :: rest =>
          match readValue fuel rest with
          | none => none
          | some (value, rest) =>
            match skipSpace rest with
            | ',' :: rest => readEntries fuel ((key, value) :: done) rest
            | '\x7d' :: rest => some (.table ((key, value) :: done).reverse, rest)
            | _ => none
        | _ => none
    | _ => none
end

/-- Read a document: one value, with blanks around it and nothing else. -/
def readChars (cs : List Char) : Option Data :=
  match readValue (cs.length + 1) cs with
  | none => none
  | some (d, rest) => if (skipSpace rest).isEmpty then some d else none

def read (s : String) : Option Data := readChars s.toList

end CompletionDb.Json
