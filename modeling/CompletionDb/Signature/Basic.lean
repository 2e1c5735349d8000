import CompletionDb.Record.Basic
import CompletionDb.Signature.Piece
import CompletionDb.Text.Word

/-!
# Signatures in doc text

The doc text of a native callable often begins with lines such as

    center(width[, fillchar]) -> str
    print(value, ..., sep=' ', file=sys.stdout)

Each leading line of this form is one overload; the first line of another form ends them. A line is
a name, a parenthesised parameter list and perhaps a return type; what follows is ignored. Pieces
without a name (`*`, `/`, `...`) and pieces that cannot be read are no parameters.
-/
namespace CompletionDb.Signature

/-- Default text of an optional parameter that is written without one. -/
def optionalDefault : String := "None"

def splitLastDot (cs : List Char) : Option (List Char × List Char) :=
  let after := cs.reverse.takeWhile (· != '.')
  match cs.reverse.dropWhile (· != '.') with
  | [] => none
  | _ :: before => some (before.reverse, after.reverse)

/-- The type that a name in doc text stands for. `None` is the null type, a dotted name is qualified
by its module, and any other name belongs to the builtin module. -/
def resolveChars (builtin : String) (cs : List Char) : TypeName :=
  let text := Text.trim cs
  if text = ['N', 'o', 'n', 'e'] then ⟨builtin, "NoneType"⟩
  else
    match splitLastDot text with
    | some (module, name) =>
      if module.isEmpty || name.isEmpty then ⟨builtin, String.ofList text⟩
      else ⟨String.ofList module, String.ofList name⟩
    | none => ⟨builtin, String.ofList text⟩

def resolveType (builtin text : String) : TypeName := resolveChars builtin text.toList

/-- The text after a mark that may have gaps around it. -/
def afterMark (mark : Char) (cs : List Char) : Option (List Char) :=
  match Text.skipGap cs with
  | [] => none
  | c :: rest => if c = mark then some (Text.skipGap rest) else none

def readStars : List Char → Option Variadic × List Char
  | '*' :: '*' :: cs => (some .keyword, cs)
  | '*' :: cs => (some .positional, cs)
  | cs => (none, cs)

def dropDollar : List Char → List Char
  | '$' :: cs => cs
  | cs => cs

def readAnnotation (cs : List Char) : Option (List Char) × List Char :=
  match afterMark ':' cs with
  | none => (none, cs)
  | some rest =>
    match rest.takeWhile Text.isDottedWord with
    | [] => (none, cs)
    | word => (some word, rest.dropWhile Text.isDottedWord)

/-- An optional `= default`, which takes all the text that is left. -/
def readDefault (cs : List Char) : Option (List Char) × List Char :=
  match afterMark '=' cs with
  | none => (none, cs)
  | some rest => (some rest, [])

def Piece.parameter? (builtin : String) (p : Piece) : Option Parameter :=
  let (stars, afterStars) := readStars p.text
  let afterDollar := dropDollar afterStars
  let name := afterDollar.takeWhile Text.isWord
  let (typeText, afterType) := readAnnotation (afterDollar.dropWhile Text.isWord)
  let (default, rest) := readDefault afterType
  if name.isEmpty || !Text.isAllBlank rest then none
  else some {
    name := String.ofList name
    type := typeText.map (resolveChars builtin)
    default :=
      match default with
      | some text => some (String.ofList (Text.trim text))
      | none => if p.optional && stars.isNone then some optionalDefault else none
    variadic := stars }

def readReturn (cs : List Char) : Option (List Char) :=
  match Text.skipGap cs with
  | '-' :: '>' :: rest =>
    match (Text.skipGap rest).takeWhile Text.isDottedWord with
    | [] => none
    | word => some word
  | _ => none

/-- Read one signature line. A missing return type is the placeholder. -/
def parseLine (builtin : String) (placeholder : TypeName) (line : List Char) : Option Overload :=
  if (line.takeWhile Text.isDottedWord).isEmpty then none
  else
    match balanced (line.dropWhile Text.isDottedWord) with
    | none => none
    | some (params, rest) =>
      some {
        params := (pieces params).filterMap (Piece.parameter? builtin)
        returns := ((readReturn rest).map (resolveChars builtin)).getD placeholder }

/-- The longest run of signature lines at the start. -/
def leadingOverloads (builtin : String) (placeholder : TypeName) :
    List (List Char) → List Overload
  | [] => []
  | line :: rest =>
    match parseLine builtin placeholder (Text.trim line) with
    | none => []
    | some overload => overload :: leadingOverloads builtin placeholder rest

def parseDoc (builtin : String) (placeholder : TypeName) (doc : String) : List Overload :=
  leadingOverloads builtin placeholder (Text.lines doc.toList)

end CompletionDb.Signature
