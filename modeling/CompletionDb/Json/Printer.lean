import CompletionDb.Data.Basic

/-!
# JSON text of data

Two layouts: compact, without any blank, and pretty, with one item a line and two spaces of
indentation a level. Texts escape the quote, the backslash and the control characters below U+0020,
five of them by a letter; every other character stands for itself.
-/
namespace CompletionDb.Json

def hexDigit (n : Nat) : Char := Nat.digitChar n

/-- A character as it stands inside a text literal. -/
def escape (c : Char) : List Char :=
  if c = '"' then ['\\', '"']
  else if c = '\\' then ['\\', '\\']
  else if c = '\x08' then ['\\', 'b']
  else if c = '\t' then ['\\', 't']
  else if c = '\n' then ['\\', 'n']
  else if c = '\x0c' then ['\\', 'f']
  else if c = '\r' then ['\\', 'r']
  else if c.toNat < 0x20 then
    ['\\', 'u', '0', '0', hexDigit (c.toNat / 16), hexDigit (c.toNat % 16)]
  else [c]

def quoted (s : String) : List Char := '"' :: s.toList.flatMap escape ++ ['"']

def nullText : List Char := ['n', 'u', 'l', 'l']

def boolText : Bool → List Char
  | true => ['t', 'r', 'u', 'e']
  | false => ['f', 'a', 'l', 's', 'e']

/-- The text of an item that holds no others. -/
def scalar : Data → List Char
  | .bool b => boolText b
  | .number n => n.text
  | .unsigned _ n => Nat.toDigits 10 n
  | .text s => quoted s
  | _ => nullText

mutual
def compactChars : Data → List Char
  | .list items => '[' :: compactItems items
  | .table entries => '\x7b' :: compactEntries entries
  | d => scalar d

/-- Items up to the closing bracket. -/
def compactItems : List Data → List Char
  | [] => [']']
  | d :: ds => compactChars d ++ compactMoreItems ds

def compactMoreItems : List Data → List Char
  | [] => [']']
  | d :: ds => ',' :: compactChars d ++ compactMoreItems ds

/-- Entries up to the closing brace. -/
def compactEntries : List (Data × Data) → List Char
  | [] => ['\x7d']
  | (k, v) :: rest => compactChars k ++ ':' :: compactChars v ++ compactMoreEntries rest

def compactMoreEntries : List (Data × Data) → List Char
  | [] => ['\x7d']
  | (k, v) :: rest => ',' :: compactChars k ++ ':' :: compactChars v ++ compactMoreEntries rest
end

/-- A line break and the indentation of a level. -/
def newline (level : Nat) : List Char := '\n' :: List.replicate (2 * level) ' '

mutual
def prettyChars (level : Nat) : Data → List Char
  | .list [] => ['[', ']']
  | .list (d :: ds) =>
    '[' :: newline (level + 1) ++ prettyChars (level + 1) d ++ prettyItems level ds
  | .table [] => ['\x7b', '\x7d']
  | .table ((k, v) :: rest) =>
    '\x7b' :: newline (level + 1) ++ prettyChars (level + 1) k ++ ':' :: ' ' ::
      prettyChars (level + 1) v ++ prettyEntries level rest
  | d => scalar d

def prettyItems (level : Nat) : List Data → List Char
  | [] => newline level ++ [']']
  | d :: ds => ',' :: newline (level + 1) ++ prettyChars (level + 1) d ++ prettyItems level ds

def prettyEntries (level : Nat) : List (Data × Data) → List Char
  | [] => newline level ++ ['\x7d']
  | (k, v) :: rest =>
    ',' :: newline (level + 1) ++ prettyChars (level + 1) k ++ ':' :: ' ' ::
      prettyChars (level + 1) v ++ prettyEntries level rest
end

def compact (d : Data) : String := String.ofList (compactChars d)

/-- The pretty text, closed by a line break. -/
def pretty (d : Data) : String := String.ofList (prettyChars 0 d ++ ['\n'])

end CompletionDb.Json
