/-!
# Blank characters and lines

Doc texts come from anywhere, so blank means the Unicode property White_Space and not only the
ASCII part of it. A line ends at a line feed, and one carriage return before that feed belongs to
the ending; a carriage return elsewhere is an ordinary (blank) character.
-/
namespace CompletionDb.Text

/-- The characters of the Unicode property White_Space. -/
def isBlank (c : Char) : Bool :=
  let n := c.toNat
  (0x09 ≤ n && n ≤ 0x0D) || n == 0x20 || n == 0x85 || n == 0xA0 || n == 0x1680 ||
    (0x2000 ≤ n && n ≤ 0x200A) || n == 0x2028 || n == 0x2029 || n == 0x202F || n == 0x205F ||
    n == 0x3000

def trim (cs : List Char) : List Char :=
  ((cs.dropWhile isBlank).reverse.dropWhile isBlank).reverse

def isAllBlank (cs : List Char) : Bool := cs.all isBlank

/-- The four characters that may stand between the parts of a signature: space, tab, carriage
return and line feed. -/
def isGap (c : Char) : Bool := c == ' ' || c == '\t' || c == '\r' || c == '\n'

def skipGap (cs : List Char) : List Char := cs.dropWhile isGap

def endLine : List Char → List Char
  | '\r' :: cs => cs.reverse
  | cs => cs.reverse

/-- `lines` with the reversed characters of the line being read. -/
def linesFrom (line : List Char) : List Char → List (List Char)
  | [] => if line.isEmpty then [] else [line.reverse]
  | c :: cs => if c = '\n' then endLine line :: linesFrom [] cs else linesFrom (c :: line) cs

/-- The lines of a text. A text that ends with a line feed has no empty line after it. -/
def lines (cs : List Char) : List (List Char) := linesFrom [] cs

end CompletionDb.Text
