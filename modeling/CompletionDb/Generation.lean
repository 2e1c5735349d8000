import CompletionDb.Extraction.Provider
import CompletionDb.Merge.Report
import CompletionDb.Response

/-!
# Generating a store

A run loads its settings and the snapshot, and writes a record for the builtin module and then for
the other modules of the snapshot, each merged with its baseline. A failure with the builtin module
ends the run; any other module that fails is skipped and the run goes on. Names that occur again,
the builtin module and the modules left out by the settings are passed over. A baseline that cannot
be read counts as missing.
-/
namespace CompletionDb.Generation

/-- What a run is asked to do. Settings given here override those of the settings file. -/
structure Options where
  snapshot : Path
  out : Path
  baseline : Option Path := none
  settings : Option Path := none
  strategy : Option Strategy := none
  maxTypeDepth : Option Nat := none
  deriving DecidableEq, Repr, Inhabited

def Options.override (o : Options) (c : Settings) : Settings :=
  { c with
    strategy := o.strategy.getD c.strategy
    maxTypeDepth := o.maxTypeDepth.getD c.maxTypeDepth }

variable {m : Type → Type} [Monad m]

def loadSettings (host : Host m) (o : Options) : m (Except Settings.LoadError Settings) := do
  let base ←
    match o.settings with
    | some path => Settings.load host path
    | none => pure (.ok {})
  return base.bind fun c => (o.override c).check.mapError .invalid

def loadBaseline (host : Host m) (store : Store) (module : String) : m (Option Record) := do
  match ← store.load host module with
  | .ok r => return r
  | .error e =>
    host.log ⟨.warn, "ignoring unreadable baseline", [("module", module), ("error", e.message)]⟩
    return none

/-- Where a run reads and writes. -/
structure Target where
  out : Store
  baseline : Option Store
  placeholder : TypeName

def loadPrevious (host : Host m) (t : Target) (module : String) : m (Option Record) :=
  match t.baseline with
  | some store => loadBaseline host store module
  | none => pure none

/-- Merge a fresh record with its baseline and save it. The result is the number of conflicts. -/
def writeMerged (host : Host m) (t : Target) (module : String) (fresh : Record) :
    m (Except Store.Error Nat) := do
  let previous ← loadPrevious host t module
  let notes := Merge.notes t.placeholder previous fresh
  let report := Merge.Report.ofNotes notes
  host.logAll (Merge.log notes)
  match ← t.out.save host module (Merge.record t.placeholder previous fresh) with
  | .error e => return .error e
  | .ok path =>
    host.log ⟨.debug, "wrote module",
      [("module", module), ("path", path),
        ("overloads_adopted", toString report.overloadsAdopted),
        ("docs_adopted", toString report.docsAdopted),
        ("types_narrowed", toString report.typesNarrowed)]⟩
    return .ok report.conflicts.length

def writeExtracted (host : Host m) (t : Target) (module : String) (extracted : Extracted) :
    m (Except Failure Nat) := do
  match extracted with
  | .error missing => return .error (.moduleNotFound missing)
  | .ok (fresh, lines) =>
    host.logAll lines
    return (← writeMerged host t module fresh).mapError Store.Error.failure

/-- The modules of a run after the builtin one, with those met before. -/
def writeModules (host : Host m) (t : Target) (p : Provider) (c : Settings) (seen : List String)
    (done : Generated) : List String → m Generated
  | [] => pure done
  | module :: rest => do
    if !c.selects module || seen.contains module then
      host.log ⟨.debug, "not scraping", [("module", module)]⟩
      writeModules host t p c seen done rest
    else
      match ← writeExtracted host t module (p.extract module) with
      | .ok conflicts =>
        writeModules host t p c (module :: seen)
          { done with
            written := done.written ++ [module]
            conflicts := done.conflicts + conflicts } rest
      | .error e =>
        host.log ⟨.warn, "skipping module", [("module", module), ("error", e.message)]⟩
        writeModules host t p c (module :: seen)
          { done with skipped := done.skipped ++ [⟨module, e.message⟩] } rest

/-- Write the records of a provider to a store. -/
def generate (host : Host m) (p : Provider) (c : Settings) (out : Store) (baseline : Option Store) :
    m (Except Failure Generated) := do
  let t : Target := ⟨out, baseline, c.placeholder⟩
  match ← writeExtracted host t c.builtinModule (p.extractBuiltin c.builtinModule) with
  | .error e => return .error e
  | .ok conflicts =>
    let done ← writeModules host t p c [] ⟨[c.builtinModule], [], conflicts⟩ p.builtinModules
    host.log ⟨.info, "generation finished",
      [("written", toString done.written.length), ("skipped", toString done.skipped.length),
        ("kind_conflicts", toString done.conflicts)]⟩
    return .ok done

def run (host : Host m) (o : Options) : m (Except Failure Generated) := do
  match ← loadSettings host o with
  | .error e => return .error e.failure
  | .ok c =>
    match ← Snapshot.load host o.snapshot with
    | .error e => return .error e.failure
    | .ok s =>
      host.log ⟨.info, "loaded runtime snapshot",
        [("runtime", o.snapshot), ("objects", toString s.objects.length)]⟩
      generate host (Extraction.provider s c) c ⟨o.out⟩ (o.baseline.map (⟨·⟩))

end CompletionDb.Generation
