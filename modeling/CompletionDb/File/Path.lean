/-!
# Path texts

Paths are texts whose parts are separated by slashes. Empty parts mean nothing, and neither does a
single dot, except as the first part of a relative path. The name of a path is its last part, unless
that is a dot or two. A name splits at its last dot into stem and extension; a dot at the start of a
name does not count for this.
-/
namespace CompletionDb

abbrev Path := String

namespace Path

def splitSlashes : List Char → List (List Char)
  | [] => [[]]
  | c :: cs =>
    if c = '/' then [] :: splitSlashes cs
    else
      match splitSlashes cs with
      | [] => [[c]]
      | part :: parts => (c :: part) :: parts

def isAbsolute (p : Path) : Bool := p.toList.head? == some '/'

def endsWithSlash (p : Path) : Bool := p.toList.getLast? == some '/'

/-- All parts that are not empty. -/
def rawParts (p : Path) : List String :=
  ((splitSlashes p.toList).filter (!·.isEmpty)).map String.ofList

/-- Parts without dots that mean nothing. -/
def parts (p : Path) : List String :=
  match p.rawParts with
  | [] => []
  | first :: rest =>
    let rest := rest.filter (· != ".")
    if first = "." && p.isAbsolute then rest else first :: rest

/-- Put a path below a root. An absolute path stands for itself. -/
def join (root sub : Path) : Path :=
  if sub.isAbsolute then sub
  else if root.isEmpty || root.endsWithSlash then root ++ sub
  else root ++ "/" ++ sub

/-- The path with the given parts. -/
def ofParts (absolute : Bool) (parts : List String) : Path :=
  (if absolute then "/" else "") ++ "/".intercalate parts

def name? (p : Path) : Option String :=
  match p.parts.getLast? with
  | none => none
  | some name => if name = "." || name = ".." then none else some name

def parent (p : Path) : Path := ofParts p.isAbsolute p.parts.dropLast

/-- The directories above a path from the nearest on, given its parts, last first. -/
def parentsOf (absolute : Bool) : (reversed : List String) → List Path
  | [] => []
  | _ :: above =>
    if above.isEmpty && !absolute then []
    else ofParts absolute above.reverse :: parentsOf absolute above

/-- The path and the directories above it, from the nearest on. -/
def chain (p : Path) : List Path := p :: parentsOf p.isAbsolute p.parts.reverse

def withName (p : Path) (name : String) : Path :=
  if p.name?.isSome then p.parent.join name else p.join name

/-- Cut a name at its last dot, if that is not its first character. -/
def splitName (name : List Char) : Option (List Char × List Char) :=
  match name.reverse.dropWhile (· != '.') with
  | [] | [_] => none
  | _ :: stem => some (stem.reverse, (name.reverse.takeWhile (· != '.')).reverse)

def stemOfName (name : String) : String :=
  match splitName name.toList with
  | some (stem, _) => String.ofList stem
  | none => name

def extensionOfName (name : String) : Option String :=
  (splitName name.toList).map fun (_, extension) => String.ofList extension

def stem? (p : Path) : Option String := p.name?.map stemOfName

end Path

end CompletionDb
