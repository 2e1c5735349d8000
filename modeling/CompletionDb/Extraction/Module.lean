import CompletionDb.Extraction.Entry

/-!
# Records of modules

The record of a module has an entry for each member of its namespace. The builtin module also lists
the well-known types that no namespace shows; their entries are hidden and take the place of
members of the same name.
-/
namespace CompletionDb.Extraction

def recordOf (s : Snapshot) (c : Settings) (n : Namespace) : Record where
  doc := docText n.doc
  members := n.members.map fun (member, id) => (member, entry s c false id)

/-- Add the hidden entries to the record of the builtin module. -/
def withHidden (s : Snapshot) (c : Settings) (r : Record) : Record :=
  { r with
    members := s.wellKnown.hiddenEntries.foldl
      (fun members (name, id) => Table.insert name (entry s c true id) members) r.members }

/-- The record of an ordinary module, if the snapshot has it. -/
def record? (s : Snapshot) (c : Settings) (module : String) : Option Record :=
  (s.modules.find? module).map (recordOf s c)

/-- The record of the builtin module, if the snapshot has it. -/
def builtinRecord? (s : Snapshot) (c : Settings) (module : String) : Option Record :=
  (record? s c module).map (withHidden s c)

def extractedLine (module : String) (members : Nat) : LogLine :=
  ⟨.debug, "extracted module", [("module", module), ("members", toString members)]⟩

/-- Log lines of the extraction of a module. -/
def log (s : Snapshot) (c : Settings) (module : String) : List LogLine :=
  match s.modules.find? module with
  | none => []
  | some n =>
    (n.members.flatMap fun (_, id) => (notes s c id).map Note.logLine) ++
      [extractedLine module n.members.length]

def builtinLog (s : Snapshot) (c : Settings) (module : String) : List LogLine :=
  match s.modules.find? module with
  | none => []
  | some _ =>
    log s c module ++
      s.wellKnown.hiddenEntries.flatMap fun (_, id) => (notes s c id).map Note.logLine

end CompletionDb.Extraction
