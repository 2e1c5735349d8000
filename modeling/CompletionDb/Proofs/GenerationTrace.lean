import Mathlib.Algebra.GroupWithZero.Nat
import Mathlib.Data.List.Nodup
import CompletionDb.Generation
import CompletionDb.Proofs.StoreFiles

/-!
# A run as a chain of attempts

A run tries its modules one after the other, the builtin module first. Each attempt finds a disk and
leaves one, and ends in one of three ways: there is no such module, its record could not be saved,
or it was saved. A run that answers has made one attempt for the builtin module and for each
selected name, in order of first occurrence, and its answer is read off their outcomes. A run that
fails has made the first attempt only.

Everything said about runs elsewhere is derived from this chain; the program itself is opened here
and nowhere else.
-/
namespace CompletionDb

/-- What a provider has for a module of a run. -/
def Provider.extracted (p : Provider) (c : Settings) (module : String) : Extracted :=
  if module = c.builtinModule then p.extractBuiltin module else p.extract module

@[simp] theorem Provider.extracted_builtin (p : Provider) (c : Settings) :
    p.extracted c c.builtinModule = p.extractBuiltin c.builtinModule := if_pos rfl

theorem Provider.extracted_of_ne {p : Provider} {c : Settings} {module : String}
    (h : module ≠ c.builtinModule) : p.extracted c module = p.extract module := if_neg h

/-- The names that are tried after the builtin module, given those met before. -/
def Settings.selection (c : Settings) : (seen : List String) → List String → List String
  | _, [] => []
  | seen, module :: rest =>
    if !c.selects module || seen.contains module then c.selection seen rest
    else module :: c.selection (module :: seen) rest

/-- The names that a run tries. -/
def Provider.names (p : Provider) (c : Settings) : List String :=
  c.builtinModule :: c.selection [] p.builtinModules

namespace Generation
open Disk

/-- The record that the baseline has for a module. -/
def Target.previous (t : Target) (d : Disk) (module : String) : Option Record :=
  t.baseline.bind fun store => store.stored? d module

/-- What a fresh record is merged to on a disk. -/
def Target.merged (t : Target) (d : Disk) (module : String) (fresh : Record) : Record :=
  Merge.record t.placeholder (t.previous d module) fresh

/-- Number of conflicts of that merge. -/
def Target.conflicts (t : Target) (d : Disk) (module : String) (fresh : Record) : ℕ :=
  (Merge.report t.placeholder (t.previous d module) fresh).conflicts.length

structure Attempt where
  module : String
  before : Disk
  after : Disk
  outcome : Except Failure ℕ

/-- The ways in which an attempt ends, given what was extracted. -/
inductive Attempt.Ends (t : Target) : Extracted → Attempt → Prop
  | missing (module name : String) (d : Disk) :
      Ends t (.error name) ⟨module, d, d, .error (.moduleNotFound name)⟩
  | unsaved {module : String} {fresh : Record} {lines : List LogLine} {d d' : Disk}
      (e : Failure) : t.out.Unsaved module d d' →
      Ends t (.ok (fresh, lines)) ⟨module, d, d', .error e⟩
  | saved {module : String} {fresh : Record} {lines : List LogLine} {d d' : Disk} :
      t.out.Saved module (Archive.encode (t.merged d module fresh)) d d' →
      Ends t (.ok (fresh, lines)) ⟨module, d, d', .ok (t.conflicts d module fresh)⟩

/-- Attempts one after the other, each on the disk that the one before it left. -/
inductive Chain (t : Target) (extracted : String → Extracted) : Disk → List Attempt → Disk → Prop
  | nil (d : Disk) : Chain t extracted d [] d
  | cons {a : Attempt} {rest : List Attempt} {d d' : Disk} : a.before = d →
      a.Ends t (extracted a.module) → Chain t extracted a.after rest d' →
      Chain t extracted d (a :: rest) d'

theorem Chain.ends {t : Target} {extracted : String → Extracted} {d d' : Disk}
    {attempts : List Attempt} (h : Chain t extracted d attempts d') :
    ∀ a ∈ attempts, a.Ends t (extracted a.module) := by
  induction h with
  | nil => exact List.forall_mem_nil _
  | cons _ hends _ ih => exact List.forall_mem_cons.mpr ⟨hends, ih⟩

/-- An attempt that succeeds leaves the merged record in the file of its module. -/
theorem Attempt.Ends.read_of_ok {t : Target} {extracted : Extracted} {a : Attempt} {n : ℕ}
    (h : a.Ends t extracted) (hn : a.outcome = .ok n) :
    ∃ fresh lines, extracted = .ok (fresh, lines) ∧
      a.after.read (t.out.pathFor a.module) =
        .ok (Archive.encode (t.merged a.before a.module fresh)) := by
  cases h with
  | missing => cases hn
  | unsaved => cases hn
  | saved hsaved => exact ⟨_, _, rfl, Store.read_of_find hsaved.found⟩

/-- A chain of attempts at different modules. -/
structure Course (t : Target) (extracted : String → Extracted) (d : Disk) (attempts : List Attempt)
    (d' : Disk) : Prop where
  chain : Chain t extracted d attempts d'
  modules : ∀ a ∈ attempts, Path.IsComponent a.module
  distinct : (attempts.map Attempt.module).Nodup

/-! ## What attempts are reported as -/

def Attempt.written? (a : Attempt) : Option String :=
  match a.outcome with
  | .ok _ => some a.module
  | .error _ => none

def Attempt.skipped? (a : Attempt) : Option Skipped :=
  match a.outcome with
  | .ok _ => none
  | .error e => some ⟨a.module, e.message⟩

def Attempt.conflicts (a : Attempt) : ℕ :=
  match a.outcome with
  | .ok n => n
  | .error _ => 0

/-- An answer, with the attempts that were made after it. -/
def answer (done : Generated) (attempts : List Attempt) : Generated where
  written := done.written ++ attempts.filterMap Attempt.written?
  skipped := done.skipped ++ attempts.filterMap Attempt.skipped?
  conflicts := done.conflicts + (attempts.map Attempt.conflicts).sum

/-- What a run over the given names reports. It fails with its first attempt, or ends when each of
the names was tried. -/
inductive Reported (names : List String) : List Attempt → Except Failure Generated → Prop
  | failed {a : Attempt} {e : Failure} : names.head? = some a.module → a.outcome = .error e →
      Reported names [a] (.error e)
  | finished {a : Attempt} {rest : List Attempt} {n : ℕ} :
      (a :: rest).map Attempt.module = names → a.outcome = .ok n →
      Reported names (a :: rest) (.ok (answer ⟨[], [], 0⟩ (a :: rest)))

theorem Reported.sublist {names : List String} {attempts : List Attempt}
    {r : Except Failure Generated} (h : Reported names attempts r) :
    (attempts.map Attempt.module).Sublist names := by
  cases h with
  | failed hhead _ =>
      obtain ⟨rest, rfl⟩ := List.head?_eq_some_iff.mp hhead
      exact List.singleton_sublist.mpr List.mem_cons_self
  | finished hmodules _ => rw [hmodules]

@[simp] theorem answer_nil (done : Generated) : answer done [] = done := by simp [answer]

theorem answer_cons_ok {done : Generated} {a : Attempt} {n : ℕ} (h : a.outcome = .ok n)
    (rest : List Attempt) :
    answer done (a :: rest) =
      answer { done with written := done.written ++ [a.module], conflicts := done.conflicts + n }
        rest := by
  simp [answer, Attempt.written?, Attempt.skipped?, Attempt.conflicts, h, Nat.add_assoc]

theorem answer_cons_error {done : Generated} {a : Attempt} {e : Failure} (h : a.outcome = .error e)
    (rest : List Attempt) :
    answer done (a :: rest) =
      answer { done with skipped := done.skipped ++ [⟨a.module, e.message⟩] } rest := by
  simp [answer, Attempt.written?, Attempt.skipped?, Attempt.conflicts, h]

theorem reported_cons {names : List String} {a : Attempt} {rest : List Attempt} {n : ℕ}
    (hnames : (a :: rest).map Attempt.module = names) (h : a.outcome = .ok n) :
    Reported names (a :: rest) (.ok (answer ⟨[a.module], [], n⟩ rest)) := by
  have hreported := Reported.finished hnames h
  rw [answer_cons_ok h] at hreported
  simpa using hreported

/-! ## One attempt -/

section
variable {w w' : World} {t : Target}

theorem log_eq {line : LogLine} {u : Unit} (h : (host.log line).run w = (u, w')) :
    w'.disk = w.disk := by
  rw [← (Prod.mk.inj h).2]

theorem logAll_eq {lines : List LogLine} {u : Unit} (h : (host.logAll lines).run w = (u, w')) :
    w'.disk = w.disk := by
  induction lines generalizing w with
  | nil =>
      obtain ⟨-, rfl⟩ := run_pure_eq h
      rfl
  | cons line lines ih =>
      obtain ⟨u₁, w₁, hline, h⟩ := run_bind_eq h
      rw [ih h, log_eq hline]

theorem load_eq {store : Store} {module : String} {r : Except Store.Error (Option Record)}
    (h : (store.load host module).run w = (r, w')) :
    w' = w ∧ store.stored? w.disk module = r.toOption.join := by
  unfold Store.load at h
  obtain ⟨content, w₁, hread, h⟩ := run_bind_eq h
  obtain ⟨rfl, rfl⟩ : w.disk.read (store.pathFor module) = content ∧ w = w₁ := Prod.mk.inj hread
  unfold Store.stored?
  split at h
  · rename_i hcontent
    obtain ⟨rfl, rfl⟩ := run_pure_eq h
    rw [hcontent]
    exact ⟨rfl, rfl⟩
  · rename_i e _ hcontent
    obtain ⟨rfl, rfl⟩ := run_pure_eq h
    rw [hcontent]
    exact ⟨rfl, rfl⟩
  · rename_i bytes hcontent
    rw [hcontent]
    split at h
    · rename_i hdecode
      obtain ⟨rfl, rfl⟩ := run_pure_eq h
      simp [hdecode, Except.toOption]
    · rename_i hdecode
      obtain ⟨rfl, rfl⟩ := run_pure_eq h
      simp [hdecode, Except.toOption]

theorem loadBaseline_eq {store : Store} {module : String} {r : Option Record}
    (h : (loadBaseline host store module).run w = (r, w')) :
    r = store.stored? w.disk module ∧ w'.disk = w.disk := by
  unfold loadBaseline at h
  obtain ⟨loaded, w₁, hload, h⟩ := run_bind_eq h
  obtain ⟨rfl, hstored⟩ := load_eq hload
  rw [hstored]
  cases loaded with
  | ok found =>
      obtain ⟨rfl, rfl⟩ := run_pure_eq h
      exact ⟨rfl, rfl⟩
  | error e =>
      dsimp only at h
      obtain ⟨u, w₂, hlog, h⟩ := run_bind_eq h
      obtain ⟨rfl, rfl⟩ := run_pure_eq h
      exact ⟨rfl, log_eq hlog⟩

theorem loadPrevious_eq {module : String} {r : Option Record}
    (h : (loadPrevious host t module).run w = (r, w')) :
    r = t.previous w.disk module ∧ w'.disk = w.disk := by
  unfold loadPrevious at h
  unfold Target.previous
  split at h
  · rename_i store hstore
    rw [hstore]
    exact loadBaseline_eq h
  · rename_i hstore
    obtain ⟨rfl, rfl⟩ := run_pure_eq h
    rw [hstore]
    exact ⟨rfl, rfl⟩

theorem writeMerged_eq {module : String} {fresh : Record} {r : Except Store.Error ℕ}
    (h : (writeMerged host t module fresh).run w = (r, w')) :
    (∃ e, r = .error e ∧ t.out.Unsaved module w.disk w'.disk) ∨
      r = .ok (t.conflicts w.disk module fresh) ∧
        t.out.Saved module (Archive.encode (t.merged w.disk module fresh)) w.disk w'.disk := by
  unfold writeMerged at h
  obtain ⟨previous, w₁, hprevious, h⟩ := run_bind_eq h
  obtain ⟨rfl, hdisk₁⟩ := loadPrevious_eq hprevious
  obtain ⟨u, w₂, hlog, h⟩ := run_bind_eq h
  have hdisk₂ : w₂.disk = w.disk := (logAll_eq hlog).trans hdisk₁
  obtain ⟨saved, w₃, hsave, h⟩ := run_bind_eq h
  rcases Store.save_eq hsave with ⟨e, rfl, hunsaved⟩ | ⟨rfl, hsaved⟩
  · obtain ⟨rfl, rfl⟩ := run_pure_eq h
    rw [hdisk₂] at hunsaved
    exact .inl ⟨e, rfl, hunsaved⟩
  · dsimp only at h
    obtain ⟨u', w₄, hlog', h⟩ := run_bind_eq h
    obtain ⟨rfl, rfl⟩ := run_pure_eq h
    rw [hdisk₂, ← log_eq hlog'] at hsaved
    exact .inr ⟨rfl, hsaved⟩

theorem writeExtracted_eq {module : String} {extracted : Extracted} {r : Except Failure ℕ}
    (h : (writeExtracted host t module extracted).run w = (r, w')) :
    Attempt.Ends t extracted ⟨module, w.disk, w'.disk, r⟩ := by
  unfold writeExtracted at h
  cases extracted with
  | error name =>
      obtain ⟨rfl, rfl⟩ := run_pure_eq h
      exact .missing module name _
  | ok found =>
      obtain ⟨fresh, lines⟩ := found
      dsimp only at h
      obtain ⟨u, w₁, hlog, h⟩ := run_bind_eq h
      obtain ⟨merged, w₂, hmerged, h⟩ := run_bind_eq h
      obtain ⟨rfl, rfl⟩ := run_pure_eq h
      rcases writeMerged_eq hmerged with ⟨e, rfl, hunsaved⟩ | ⟨rfl, hsaved⟩
      · rw [logAll_eq hlog] at hunsaved
        exact .unsaved _ hunsaved
      · rw [logAll_eq hlog] at hsaved ⊢
        exact .saved hsaved

end

/-! ## The names that are tried -/

section
variable {c : Settings}

theorem mem_selection {module : String} {seen names : List String}
    (h : module ∈ c.selection seen names) :
    module ∈ names ∧ c.selects module ∧ module ∉ seen := by
  induction names generalizing seen with
  | nil => cases h
  | cons name names ih =>
      rw [Settings.selection] at h
      split_ifs at h with hpass
      · obtain ⟨hmem, hrest⟩ := ih h
        exact ⟨List.mem_cons_of_mem _ hmem, hrest⟩
      · simp only [Bool.or_eq_true, Bool.not_eq_true', List.contains_iff_mem, not_or,
          Bool.not_eq_false] at hpass
        rcases List.mem_cons.mp h with rfl | h
        · exact ⟨List.mem_cons_self, hpass⟩
        · obtain ⟨hmem, hsel, hseen⟩ := ih h
          exact ⟨List.mem_cons_of_mem _ hmem, hsel, fun hin => hseen (List.mem_cons_of_mem _ hin)⟩

theorem nodup_selection (c : Settings) (seen names : List String) :
    (c.selection seen names).Nodup := by
  induction names generalizing seen with
  | nil => exact List.nodup_nil
  | cons name names ih =>
      rw [Settings.selection]
      split_ifs
      · exact ih seen
      · refine List.nodup_cons.mpr ⟨fun h => ?_, ih _⟩
        exact (mem_selection h).2.2 List.mem_cons_self

theorem selects_ne {module : String} (h : c.selects module) : module ≠ c.builtinModule := by
  unfold Settings.selects at h
  simp only [Bool.and_eq_true, bne_iff_ne] at h
  exact h.1

theorem nodup_names (p : Provider) (c : Settings) : (p.names c).Nodup := by
  refine List.nodup_cons.mpr ⟨fun h => ?_, nodup_selection c _ _⟩
  exact selects_ne (mem_selection h).2.1 rfl

theorem mem_names {p : Provider} {module : String} (h : module ∈ p.names c) :
    module = c.builtinModule ∨ module ∈ p.builtinModules := by
  rcases List.mem_cons.mp h with rfl | h
  · exact .inl rfl
  · exact .inr (mem_selection h).1

end

/-! ## Whole runs -/

theorem writeModules_eq {p : Provider} {c : Settings} {t : Target} {names seen : List String}
    {done g : Generated} {w w' : World}
    (h : (writeModules host t p c seen done names).run w = (g, w')) :
    ∃ attempts, Chain t (p.extracted c) w.disk attempts w'.disk ∧
      attempts.map Attempt.module = c.selection seen names ∧ g = answer done attempts := by
  induction names generalizing seen done w with
  | nil =>
      obtain ⟨rfl, rfl⟩ := run_pure_eq h
      exact ⟨[], .nil _, rfl, (answer_nil done).symm⟩
  | cons module names ih =>
      rw [writeModules] at h
      rw [Settings.selection]
      split_ifs at h ⊢ with hpass
      · obtain ⟨u, w₁, hlog, h⟩ := run_bind_eq h
        obtain ⟨attempts, hchain, hmodules, hg⟩ := ih h
        rw [log_eq hlog] at hchain
        exact ⟨attempts, hchain, hmodules, hg⟩
      · obtain ⟨r, w₁, hwrite, h⟩ := run_bind_eq h
        have hne : module ≠ c.builtinModule := by
          simp only [Bool.or_eq_true, Bool.not_eq_true', not_or, Bool.not_eq_false] at hpass
          exact selects_ne hpass.1
        have hends := writeExtracted_eq hwrite
        rw [← Provider.extracted_of_ne hne] at hends
        cases r with
        | ok conflicts =>
            dsimp only at h
            obtain ⟨attempts, hchain, hmodules, rfl⟩ := ih h
            refine ⟨⟨module, w.disk, w₁.disk, .ok conflicts⟩ :: attempts,
              .cons rfl hends hchain, ?_, ?_⟩
            · rw [List.map_cons, hmodules]
            · rw [answer_cons_ok rfl]
        | error e =>
            dsimp only at h
            obtain ⟨u, w₂, hlog, h⟩ := run_bind_eq h
            obtain ⟨attempts, hchain, hmodules, rfl⟩ := ih h
            rw [log_eq hlog] at hchain
            refine ⟨⟨module, w.disk, w₁.disk, .error e⟩ :: attempts, .cons rfl hends hchain, ?_, ?_⟩
            · rw [List.map_cons, hmodules]
            · rw [answer_cons_error rfl]

theorem chain_of_generate {p : Provider} {c : Settings} {out : Store} {baseline : Option Store}
    {w w' : World} {r : Except Failure Generated}
    (h : (generate host p c out baseline).run w = (r, w')) :
    ∃ attempts, Chain ⟨out, baseline, c.placeholder⟩ (p.extracted c) w.disk attempts w'.disk ∧
      Reported (p.names c) attempts r := by
  unfold generate at h
  obtain ⟨first, w₁, hwrite, h⟩ := run_bind_eq h
  have hends := writeExtracted_eq hwrite
  rw [← Provider.extracted_builtin] at hends
  cases first with
  | error e =>
      obtain ⟨rfl, rfl⟩ := run_pure_eq h
      exact ⟨[⟨c.builtinModule, w.disk, w₁.disk, .error e⟩], .cons rfl hends (.nil _),
        .failed rfl rfl⟩
  | ok conflicts =>
      dsimp only at h
      obtain ⟨done, w₂, hrest, h⟩ := run_bind_eq h
      obtain ⟨u, w₃, hlog, h⟩ := run_bind_eq h
      obtain ⟨rfl, rfl⟩ := run_pure_eq h
      obtain ⟨attempts, hchain, hmodules, rfl⟩ := writeModules_eq hrest
      rw [← log_eq hlog] at hchain
      refine ⟨⟨c.builtinModule, w.disk, w₁.disk, .ok conflicts⟩ :: attempts,
        .cons rfl hends hchain, ?_⟩
      apply reported_cons _ rfl
      rw [List.map_cons, hmodules, Provider.names]

/-- What a run does and reports. -/
theorem generate_eq {p : Provider} {c : Settings} {out : Store} {baseline : Option Store}
    {w w' : World} {r : Except Failure Generated}
    (hnames : ∀ name ∈ c.builtinModule :: p.builtinModules, Path.IsComponent name)
    (h : (generate host p c out baseline).run w = (r, w')) :
    ∃ attempts, Course ⟨out, baseline, c.placeholder⟩ (p.extracted c) w.disk attempts w'.disk ∧
      Reported (p.names c) attempts r := by
  obtain ⟨attempts, hchain, hreported⟩ := chain_of_generate h
  refine ⟨attempts, ⟨hchain, ?_, hreported.sublist.nodup (nodup_names p c)⟩, hreported⟩
  intro a ha
  rcases mem_names (hreported.sublist.mem (List.mem_map_of_mem ha)) with hm | hm
  · rw [hm]
    exact hnames _ List.mem_cons_self
  · exact hnames _ (List.mem_cons_of_mem _ hm)

end Generation
end CompletionDb
