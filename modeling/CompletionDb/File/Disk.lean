import CompletionDb.File.Host

/-!
# A disk as a value

A disk lists its directories and files by their places, that is by the parts that lead to them from
the top. The top is always a directory. Paths are resolved part by part from the top or from the
working directory; each part has to be found in a directory. Operations fail as they do on a real
disk and then change nothing.

A node is a directory or a regular file. Links are left out, symbolic and hard ones: a place is the
only name of what is there, and `..` leads back the way a path has come. All results about whole
runs rest on this.

A program that runs over a disk may be disturbed. Writing a file, moving it and making a directory
then fail for reasons that the disk does not show, such as missing rights or a full device. Such a
failure changes nothing either.
-/
namespace CompletionDb

/-- The parts that lead from the top of a disk to one of its nodes. -/
abbrev Place := List String

inductive Node
  | directory
  | file (bytes : List UInt8)
  deriving DecidableEq, Repr, Inhabited

structure Disk where
  nodes : List (Place × Node) := []
  /-- Where relative paths start. -/
  working : Place := []
  deriving DecidableEq, Repr, Inhabited

namespace Disk

def node? (d : Disk) (p : Place) : Option Node :=
  if p.isEmpty then some .directory else d.nodes.lookup p

def erase (d : Disk) (p : Place) : Disk := { d with nodes := d.nodes.filter (·.1 != p) }

def put (d : Disk) (p : Place) (n : Node) : Disk := { d with nodes := (p, n) :: (d.erase p).nodes }

/-! ## Resolving paths -/

def maxNameSize : Nat := 255

def maxPathSize : Nat := 4095

/-- Step from a directory to one of its parts, which may be a file. -/
def child (d : Disk) (dir : Place) (part : String) : Except FileError (Place × Node) :=
  if part = "." then .ok (dir, .directory)
  else if part = ".." then .ok (dir.dropLast, .directory)
  else if maxNameSize < part.utf8ByteSize then .error .nameTooLong
  else
    match d.node? (dir ++ [part]) with
    | none => .error .notFound
    | some n => .ok (dir ++ [part], n)

/-- Walk down a row of directories. -/
def descend (d : Disk) (dir : Place) : List String → Except FileError Place
  | [] => .ok dir
  | part :: parts =>
    match d.child dir part with
    | .error e => .error e
    | .ok (_, .file _) => .error .notDirectory
    | .ok (place, .directory) => descend d place parts

/-- Refuse paths that no file system takes. -/
def checkPath (p : Path) : Except FileError Unit :=
  if p.toList.contains '\x00' then .error .nulInName
  else if p.isEmpty then .error .notFound
  else if maxPathSize < p.utf8ByteSize then .error .nameTooLong
  else .ok ()

/-- The directory in which a path ends and its last part, if it has any part. -/
def locate (d : Disk) (p : Path) : Except FileError (Place × Option String) := do
  checkPath p
  let start := if p.isAbsolute then [] else d.working
  let dir ← d.descend start p.rawParts.dropLast
  return (dir, p.rawParts.getLast?)

/-- The node at a path. A slash at the end asks for a directory. -/
def find (d : Disk) (p : Path) : Except FileError (Place × Node) := do
  match ← d.locate p with
  | (dir, none) => return (dir, .directory)
  | (dir, some part) =>
    match ← d.child dir part with
    | (place, .directory) => return (place, .directory)
    | (place, .file bytes) =>
      if p.endsWithSlash then .error .notDirectory else return (place, .file bytes)

/-- The place at which a path would put a new node, and what is there now. -/
def target (d : Disk) (p : Path) : Except FileError (Place × Option Node) := do
  match ← d.locate p with
  | (dir, none) => return (dir, some .directory)
  | (dir, some part) =>
    match d.child dir part with
    | .ok (place, n) => return (place, some n)
    | .error .notFound => return (dir ++ [part], none)
    | .error e => .error e

/-! ## Operations -/

def read (d : Disk) (p : Path) : Except FileError (List UInt8) := do
  match ← d.find p with
  | (_, .file bytes) => return bytes
  | (_, .directory) => .error .isDirectory

/-- Create or replace a file. A slash at the end of the path is refused before its last part is
looked at. -/
def write (d : Disk) (p : Path) (bytes : List UInt8) : Except FileError Disk := do
  let _ ← d.locate p
  if p.endsWithSlash then .error .isDirectory
  else
    match ← d.target p with
    | (_, some .directory) => .error .isDirectory
    | (place, _) => return d.put place (.file bytes)

def remove (d : Disk) (p : Path) : Except FileError Disk := do
  match ← d.find p with
  | (place, .file _) => return d.erase place
  | (_, .directory) => .error .isDirectory

/-- Move a file. -/
def rename (d : Disk) (source dest : Path) : Except FileError Disk := do
  match ← d.find source with
  | (_, .directory) => .error .isDirectory
  | (place, .file bytes) =>
    match ← d.target dest with
    | (_, some .directory) => .error .isDirectory
    | (goal, _) =>
      if dest.endsWithSlash then .error .notDirectory
      else return (d.erase place).put goal (.file bytes)

def makeDir (d : Disk) (p : Path) : Except FileError Disk := do
  match ← d.target p with
  | (_, some _) => .error .alreadyExists
  | (place, none) => return d.put place .directory

def isFile (d : Disk) (p : Path) : Bool :=
  match d.find p with
  | .ok (_, .file _) => true
  | _ => false

def isDir (d : Disk) (p : Path) : Bool :=
  match d.find p with
  | .ok (_, .directory) => true
  | _ => false

/-- The name of a file, if it lies directly in a directory. -/
def fileNameIn (dir : Place) : Place × Node → Option String
  | (place, .file _) => if place.dropLast = dir then place.getLast? else none
  | (_, .directory) => none

def fileNames (d : Disk) (p : Path) : List String :=
  match d.find p with
  | .ok (dir, .directory) => d.nodes.filterMap (fileNameIn dir)
  | _ => []

/-! ## Running over a disk -/

/-- A disk and the log so far, last line first. -/
structure World where
  disk : Disk := {}
  log : List LogLine := []
  /-- Disturbances of the operations to come, next one first: a failure, or none. After the last of
  them nothing is disturbed any more. -/
  faults : List (Option FileError) := []
  deriving Repr, Inhabited

/-- An operation that changes the disk if it succeeds. -/
def change (op : Disk → Except FileError Disk) : StateM World (Except FileError Unit) := fun w =>
  match op w.disk with
  | .ok disk => (.ok (), { w with disk })
  | .error e => (.error e, w)

/-- An operation that fails if it is disturbed, and else changes the disk if it succeeds. -/
def disturbed (op : Disk → Except FileError Disk) : StateM World (Except FileError Unit) := fun w =>
  match w.faults with
  | [] => change op w
  | none :: faults => change op { w with faults }
  | some e :: faults => (.error e, { w with faults })

/-- The program's surroundings when it works on a disk that is a value. -/
def host : Host (StateM World) where
  read p := fun w => (w.disk.read p, w)
  write p bytes := disturbed (·.write p bytes)
  rename source dest := disturbed (·.rename source dest)
  remove p := change (·.remove p)
  makeDir p := disturbed (·.makeDir p)
  isFile p := fun w => (w.disk.isFile p, w)
  isDir p := fun w => (w.disk.isDir p, w)
  fileNames p := fun w => (w.disk.fileNames p, w)
  tag := "0"
  log line := fun w => ((), { w with log := line :: w.log })

end Disk

end CompletionDb
