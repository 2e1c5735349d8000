import Mathlib.Algebra.BigOperators.Group.List.Basic
import Mathlib.Data.List.Perm.Basic
import CompletionDb.Proofs.RegenerationFixpoint
import CompletionDb.Proofs.SettledStore
import CompletionDb.Proofs.SnapshotGrowth

/-!
# Modules of a run are independent

Once the builtin module is written, the directory of the output is there. From then on each module
is a matter of its own: whether it can be extracted and saved, what it is merged with and what comes
out depends on the disk at three places, the file of the module, its temporary file and its file in
the baseline, and no other module touches them. So each attempt can be told from the disk that the
builtin module left (`Target.attempt`), whatever was tried in between, and the order of the modules
shows in the order of the report only.

Two orders can be compared only where nothing disturbs the runs, since a disturbance strikes what
is done at its time. What a report says of the names and conflicts of its own run holds in any case.
-/
namespace CompletionDb

namespace Store
open Disk

/-- What is loaded depends on the directories and on the node of the module's file. -/
theorem stored?_of_sameDirs {s : Store} {d d' : Disk} {module : String} (h : d.SameDirs d')
    (hnode : d'.node? (s.placeOn d module) = d.node? (s.placeOn d module)) :
    s.stored? d' module = s.stored? d module := by
  have hplace : s.placeOn d' module = s.placeOn d module := h.keeps.placeOf _
  apply Option.ext
  intro r
  simp only [stored?_eq_some, hplace]
  apply exists_congr
  intro bytes
  apply and_congr_left
  intro _
  constructor
  · intro hfind
    rcases find_eq_file hfind with ⟨hleads, hthere, hslash⟩
    exact hleads.find h.symm.keeps hslash (by rw [← hnode, hthere])
  · intro hfind
    rcases find_eq_file hfind with ⟨hleads, hthere, hslash⟩
    exact hleads.find h.keeps hslash (by rw [hnode, hthere])

end Store

/-- A snapshot that lists other names of modules. -/
def Snapshot.listing (s : Snapshot) (names : List String) : Snapshot :=
  { s with builtinModules := names }

namespace Extraction

/-- What is extracted does not depend on the names that are listed. -/
theorem provider_listing (s : Snapshot) (c : Settings) (names : List String) :
    provider (s.listing names) c = { provider s c with builtinModules := names } := by
  have hagree : s.AgreeOn (fun _ => True) (s.listing names) :=
    ⟨rfl, fun _ _ => rfl, fun _ _ => trivial, fun _ _ _ _ _ _ => trivial⟩
  have hextract : (provider (s.listing names) c).extract = (provider s c).extract :=
    funext fun _ => (provider_of_agreeOn hagree rfl (fun _ _ _ _ => trivial) c).1
  have hbuiltin : (provider (s.listing names) c).extractBuiltin =
      (provider s c).extractBuiltin :=
    funext fun _ => (provider_of_agreeOn hagree rfl (fun _ _ _ _ => trivial) c).2
  change Provider.mk names (provider (s.listing names) c).extractBuiltin
    (provider (s.listing names) c).extract = _
  rw [hextract, hbuiltin]

end Extraction

namespace Generation
open Disk

/-! ## One attempt -/

/-- The attempt at a module on a disk with the directory of the output, if nothing disturbs it. -/
def Target.attempt (t : Target) (d : Disk) (module : String) (found : Extracted) : Attempt where
  module := module
  before := d
  after :=
    match found with
    | .error _ => d
    | .ok (fresh, _) => t.out.replaced d module (Archive.encode (t.merged d module fresh))
  outcome :=
    match found with
    | .error name => .error (.moduleNotFound name)
    | .ok (fresh, _) =>
      match t.out.refusal? d module with
      | some e => .error (Store.Error.io (t.out.pathFor module) e).failure
      | none => .ok (t.conflicts d module fresh)

theorem after_attempt (t : Target) (d : Disk) (module : String) (fresh : Record)
    (lines : List LogLine) : (t.attempt d module (.ok (fresh, lines))).after =
      t.out.replaced d module (Archive.encode (t.merged d module fresh)) := rfl

theorem outcome_attempt (t : Target) (d : Disk) (module : String) (fresh : Record)
    (lines : List LogLine) : (t.attempt d module (.ok (fresh, lines))).outcome =
      match t.out.refusal? d module with
      | some e => .error (Store.Error.io (t.out.pathFor module) e).failure
      | none => .ok (t.conflicts d module fresh) := rfl

section
variable {t : Target} {w w' : World} {module : String}

theorem calm_loadPrevious (t : Target) (module : String) : Calm (loadPrevious host t module) := by
  unfold loadPrevious
  split
  · unfold loadBaseline
    apply calm_bind (calm_load _ _)
    intro loaded
    split
    · exact calm_pure _
    · exact calm_bind (calm_log _) fun _ => calm_pure _
  · exact calm_pure _

theorem calm_writeExtracted (t : Target) (module : String) (found : Extracted) :
    Calm (writeExtracted host t module found) := by
  unfold writeExtracted
  split
  · exact calm_pure _
  · apply calm_bind (calm_logAll _)
    intro _
    refine calm_bind ?_ fun _ => calm_pure _
    unfold writeMerged
    apply calm_bind (calm_loadPrevious _ _)
    intro previous
    apply calm_bind (calm_logAll _)
    intro _
    apply calm_bind (calm_save _ _ _)
    intro saved
    split
    · exact calm_pure _
    · exact calm_bind (calm_log _) fun _ => calm_pure _

theorem writeMerged_settled (hsettled : t.out.Settled w.disk) (hm : Path.IsComponent module)
    (hfaults : w.faults = []) {fresh : Record} {r : Except Store.Error ℕ}
    (h : (writeMerged host t module fresh).run w = (r, w')) :
    r = (match t.out.refusal? w.disk module with
      | some e => .error (.io (t.out.pathFor module) e)
      | none => .ok (t.conflicts w.disk module fresh)) ∧
    w'.disk = t.out.replaced w.disk module (Archive.encode (t.merged w.disk module fresh)) := by
  rw [Target.merged]
  unfold writeMerged at h
  rcases run_bind_eq h with ⟨previous, w₁, hprevious, h⟩
  rcases loadPrevious_eq hprevious with ⟨rfl, hdisk₁⟩
  have hfaults₁ := (calm_loadPrevious t module).faults hprevious hfaults
  rcases run_bind_eq h with ⟨u, w₂, hlog, h⟩
  have hdisk₂ : w₂.disk = w.disk := (logAll_eq hlog).trans hdisk₁
  have hfaults₂ := (calm_logAll _).faults hlog hfaults₁
  rw [← hdisk₂] at hsettled
  rcases run_bind_eq h with ⟨saved, w₃, hsave, h⟩
  rw [Store.save_settled hsettled hm hfaults₂, hdisk₂] at hsave
  rcases Prod.mk.inj hsave with ⟨rfl, rfl⟩
  cases hrefused : t.out.refusal? w.disk module with
  | some e =>
      rw [hrefused] at h
      rcases run_pure_eq h with ⟨rfl, rfl⟩
      exact ⟨rfl, rfl⟩
  | none =>
      rw [hrefused] at h
      rcases run_bind_eq h with ⟨u', w₄, hlog', h⟩
      rcases run_pure_eq h with ⟨rfl, rfl⟩
      exact ⟨rfl, log_eq hlog'⟩

theorem writeExtracted_settled (hsettled : t.out.Settled w.disk) (hm : Path.IsComponent module)
    (hfaults : w.faults = []) {found : Extracted} {r : Except Failure ℕ}
    (h : (writeExtracted host t module found).run w = (r, w')) :
    r = (t.attempt w.disk module found).outcome ∧
      w'.disk = (t.attempt w.disk module found).after := by
  unfold writeExtracted at h
  cases found with
  | error name =>
      rcases run_pure_eq h with ⟨rfl, rfl⟩
      exact ⟨rfl, rfl⟩
  | ok extracted =>
      rcases extracted with ⟨fresh, lines⟩
      dsimp only at h
      rcases run_bind_eq h with ⟨u, w₁, hlog, h⟩
      have hfaults₁ := (calm_logAll _).faults hlog hfaults
      have hdisk₁ := logAll_eq hlog
      rcases run_bind_eq h with ⟨merged, w₂, hmerged, h⟩
      rcases run_pure_eq h with ⟨rfl, rfl⟩
      rw [← hdisk₁] at hsettled
      rcases writeMerged_settled hsettled hm hfaults₁ hmerged with ⟨rfl, hdisk⟩
      rw [hdisk₁] at hdisk ⊢
      rw [after_attempt, outcome_attempt]
      refine ⟨?_, hdisk⟩
      cases t.out.refusal? w.disk module <;> rfl

end

/-! ## Attempts do not meet -/

/-- The places that an attempt at a module may change. -/
def Target.cells (t : Target) (d : Disk) (module : String) : Set Place :=
  {t.out.placeOn d module, t.out.tempOn d module}

section
variable {t : Target} {d d₀ : Disk} {module other : String} {q : Place}

theorem not_mem_cells (hm : Path.IsComponent module) (ho : Path.IsComponent other)
    (hne : module ≠ other) (hq : q ∈ t.cells d module) : q ∉ t.cells d other := by
  intro hq'
  rcases hq with rfl | hq
  · rcases hq' with hq' | hq'
    · exact hne (Store.placeOn_inj hm.noSlash ho.noSlash hq')
    · exact t.out.placeOn_ne_tempOn d hm ho t.out hq'
  · rw [Set.mem_singleton_iff] at hq
    rcases hq' with hq' | hq'
    · rw [hq] at hq'
      exact t.out.placeOn_ne_tempOn d ho hm t.out hq'.symm
    · rw [Set.mem_singleton_iff, hq, Store.tempOn_eq _ _ hm.noSlash,
        Store.tempOn_eq _ _ ho.noSlash] at hq'
      have hname := List.singleton_inj.mp (List.append_inj_right' hq' rfl)
      exact hne (Store.tempName_inj hname)

/-- No attempt at another module changes what the baseline has for a module. -/
theorem baseline_not_mem_cells (store : Store) (hm : Path.IsComponent module)
    (ho : Path.IsComponent other) (hne : module ≠ other) :
    store.placeOn d module ∉ t.cells d other := by
  rintro (hq | hq)
  · exact hne (Store.placeOn_inj hm.noSlash ho.noSlash hq)
  · exact store.placeOn_ne_tempOn d hm ho t.out hq

theorem sameDirs_attempt (hm : Path.IsComponent module) (found : Extracted) :
    d.SameDirs (t.attempt d module found).after := by
  cases found with
  | error name => exact .refl d
  | ok extracted =>
      rcases extracted with ⟨fresh, lines⟩
      rw [after_attempt]
      exact Store.sameDirs_replaced hm _

theorem node?_attempt (hm : Path.IsComponent module) (found : Extracted)
    (hq : q ∉ t.cells d module) : (t.attempt d module found).after.node? q = d.node? q := by
  have hplace : q ≠ t.out.placeOn d module := fun h => hq (.inl h)
  have htemp : q ≠ t.out.tempOn d module := fun h => hq (.inr h)
  cases found with
  | error name => rfl
  | ok extracted =>
      rcases extracted with ⟨fresh, lines⟩
      rw [after_attempt, Store.node?_replaced hm, if_neg (fun h => hplace h.1),
        if_neg (fun h => htemp h.1)]

/-- An attempt depends on the directories and on the nodes at the places of its module. -/
theorem attempt_congr (hm : Path.IsComponent module) (hdirs : d₀.SameDirs d)
    (hcells : ∀ q ∈ t.cells d₀ module, d.node? q = d₀.node? q)
    (hbaseline : ∀ store ∈ t.baseline,
      d.node? (store.placeOn d₀ module) = d₀.node? (store.placeOn d₀ module))
    (found : Extracted) :
    (t.attempt d module found).outcome = (t.attempt d₀ module found).outcome ∧
      ∀ q ∈ t.cells d₀ module,
        (t.attempt d module found).after.node? q = (t.attempt d₀ module found).after.node? q := by
  cases found with
  | error name => exact ⟨rfl, hcells⟩
  | ok extracted =>
      rcases extracted with ⟨fresh, lines⟩
      have hprevious : t.previous d module = t.previous d₀ module := by
        unfold Target.previous
        cases hstore : t.baseline with
        | none => rw [Option.bind_none, Option.bind_none]
        | some store =>
            rw [Option.bind_some, Option.bind_some]
            exact Store.stored?_of_sameDirs hdirs (hbaseline store hstore)
      have hmerged : t.merged d module fresh = t.merged d₀ module fresh := by
        rw [Target.merged, Target.merged, hprevious]
      have hconflicts : t.conflicts d module fresh = t.conflicts d₀ module fresh := by
        rw [Target.conflicts, Target.conflicts, hprevious]
      have hrefusal := Store.refusal?_of_sameDirs hdirs t.out module
      have htemp := Store.tempRefusal?_of_sameDirs hdirs t.out module
      have hplace : t.out.placeOn d module = t.out.placeOn d₀ module := hdirs.keeps.placeOf _
      have hspot : t.out.tempOn d module = t.out.tempOn d₀ module := hdirs.keeps.placeOf _
      rw [after_attempt, after_attempt, outcome_attempt, outcome_attempt, hmerged, hconflicts,
        hrefusal]
      refine ⟨rfl, fun q hq => ?_⟩
      rw [Store.node?_replaced hm, Store.node?_replaced hm, hrefusal, htemp, hplace, hspot,
        hcells q hq]

/-! ## Rows of attempts -/

/-- A disk on which the given modules have been tried, each as if it had been the only one. -/
structure Tried (t : Target) (extract : String → Extracted) (d₀ : Disk) (modules : List String)
    (d : Disk) : Prop where
  dirs : d₀.SameDirs d
  inside : ∀ m ∈ modules, ∀ q ∈ t.cells d₀ m,
    d.node? q = (t.attempt d₀ m (extract m)).after.node? q
  outside : ∀ q, (∀ m ∈ modules, q ∉ t.cells d₀ m) → d.node? q = d₀.node? q

variable {extract : String → Extracted} {modules modules' : List String} {d' : Disk}

theorem Tried.nil (t : Target) (extract : String → Extracted) (d₀ : Disk) :
    Tried t extract d₀ [] d₀ :=
  ⟨.refl d₀, fun _ hm => absurd hm List.not_mem_nil, fun _ _ => rfl⟩

/-- Which modules were tried decides what is on the disk. -/
theorem Tried.node?_eq (h : Tried t extract d₀ modules d) (h' : Tried t extract d₀ modules' d')
    (hsame : ∀ m, m ∈ modules ↔ m ∈ modules') (q : Place) : d.node? q = d'.node? q := by
  by_cases hq : ∃ m ∈ modules, q ∈ t.cells d₀ m
  · rcases hq with ⟨m, hm, hq⟩
    rw [h.inside m hm q hq, h'.inside m ((hsame m).mp hm) q hq]
  · push Not at hq
    rw [h.outside q hq, h'.outside q fun m hm => hq m ((hsame m).mpr hm)]

/-- One more attempt ends as it would have without the others. -/
theorem Tried.attempt (h : Tried t extract d₀ modules d)
    (hmodules : ∀ m ∈ modules, Path.IsComponent m) (hm : Path.IsComponent module)
    (hnew : module ∉ modules) :
    (t.attempt d module (extract module)).outcome =
        (t.attempt d₀ module (extract module)).outcome ∧
      Tried t extract d₀ (module :: modules) (t.attempt d module (extract module)).after := by
  have hne : ∀ m ∈ modules, module ≠ m := by
    rintro m hmem rfl
    exact hnew hmem
  have hcells : ∀ q ∈ t.cells d₀ module, d.node? q = d₀.node? q := fun q hq =>
    h.outside q fun m hmem => not_mem_cells hm (hmodules m hmem) (hne m hmem) hq
  have hbaseline : ∀ store ∈ t.baseline,
      d.node? (store.placeOn d₀ module) = d₀.node? (store.placeOn d₀ module) := fun store _ =>
    h.outside _ fun m hmem => baseline_not_mem_cells store hm (hmodules m hmem) (hne m hmem)
  rcases attempt_congr hm h.dirs hcells hbaseline (extract module) with ⟨houtcome, hnodes⟩
  have hsame : t.cells d module = t.cells d₀ module := by
    simp only [Target.cells, Store.placeOn, Store.tempOn, h.dirs.keeps.placeOf]
  refine ⟨houtcome, h.dirs.trans (sameDirs_attempt hm _), ?_, ?_⟩
  · intro m hmem q hq
    rcases List.mem_cons.mp hmem with rfl | hmem
    · exact hnodes q hq
    · have hout : q ∉ t.cells d module := by
        rw [hsame]
        exact not_mem_cells (hmodules m hmem) hm (hne m hmem).symm hq
      rw [node?_attempt hm _ hout, h.inside m hmem q hq]
  · intro q hq
    have hout : q ∉ t.cells d module := by
      rw [hsame]
      exact hq module List.mem_cons_self
    rw [node?_attempt hm _ hout, h.outside q fun m hmem => hq m (List.mem_cons_of_mem _ hmem)]

end

theorem writeModules_settled {p : Provider} {c : Settings} {t : Target} {d₀ : Disk}
    {names seen : List String} {done g : Generated} {w w' : World} (hsettled : t.out.Settled d₀)
    (hnames : ∀ name ∈ names, Path.IsComponent name)
    (hseen : ∀ name ∈ seen, Path.IsComponent name) (hfaults : w.faults = [])
    (htried : Tried t p.extract d₀ seen w.disk)
    (h : (writeModules host t p c seen done names).run w = (g, w')) :
    g = answer done ((c.selection seen names).map fun m => t.attempt d₀ m (p.extract m)) ∧
      ∃ modules, Tried t p.extract d₀ modules w'.disk ∧
        ∀ m, m ∈ modules ↔ m ∈ seen ∨ m ∈ c.selection seen names := by
  induction names generalizing seen done w with
  | nil =>
      rcases run_pure_eq h with ⟨rfl, rfl⟩
      refine ⟨(answer_nil done).symm, seen, htried, ?_⟩
      simp [Settings.selection]
  | cons module names ih =>
      have hm : Path.IsComponent module := hnames module List.mem_cons_self
      have hrest : ∀ name ∈ names, Path.IsComponent name := fun name hname =>
        hnames name (List.mem_cons_of_mem _ hname)
      rw [writeModules] at h
      rw [Settings.selection]
      split_ifs at h ⊢ with hpass
      · rcases run_bind_eq h with ⟨u, w₁, hlog, h⟩
        rw [← log_eq hlog] at htried
        exact ih hrest hseen ((calm_log _).faults hlog hfaults) htried h
      · rcases run_bind_eq h with ⟨r, w₁, hwrite, h⟩
        have hnew : module ∉ seen := by
          simp only [Bool.or_eq_true, List.contains_iff_mem, not_or] at hpass
          exact hpass.2
        have hfaults₁ := (calm_writeExtracted _ _ _).faults hwrite hfaults
        rcases writeExtracted_settled (hsettled.keeps htried.dirs.keeps) hm hfaults hwrite with
          ⟨houtcome, hdisk⟩
        rcases htried.attempt hseen hm hnew with ⟨hsame, htried⟩
        rw [← hdisk] at htried
        rw [hsame] at houtcome
        have hseen' : ∀ name ∈ module :: seen, Path.IsComponent name :=
          List.forall_mem_cons.mpr ⟨hm, hseen⟩
        have hmore : ∀ m, m ∈ module :: seen ∨ m ∈ c.selection (module :: seen) names ↔
            m ∈ seen ∨ m ∈ module :: c.selection (module :: seen) names := by
          intro m
          rw [List.mem_cons, List.mem_cons]
          tauto
        cases r with
        | ok conflicts =>
            dsimp only at h
            rcases ih hrest hseen' hfaults₁ htried h with ⟨rfl, modules, hmodules, hmem⟩
            refine ⟨?_, modules, hmodules, fun m => (hmem m).trans (hmore m)⟩
            rw [List.map_cons, answer_cons_ok houtcome.symm]
            rfl
        | error e =>
            dsimp only at h
            rcases run_bind_eq h with ⟨u, w₂, hlog, h⟩
            rw [← log_eq hlog] at htried
            rcases ih hrest hseen' ((calm_log _).faults hlog hfaults₁) htried h with
              ⟨rfl, modules, hmodules, hmem⟩
            refine ⟨?_, modules, hmodules, fun m => (hmem m).trans (hmore m)⟩
            rw [List.map_cons, answer_cons_error houtcome.symm]
            rfl

/-! ## The names that are tried -/

theorem selection_eq (c : Settings) (seen names : List String) :
    c.selection seen names =
      ((names.filter c.selects).filter fun m => !seen.contains m).eraseDups := by
  induction names generalizing seen with
  | nil => rfl
  | cons name names ih =>
      rw [Settings.selection]
      cases hselects : c.selects name with
      | false =>
          rw [List.filter_cons_of_neg (by simp [hselects])]
          simpa using ih seen
      | true =>
          rw [List.filter_cons_of_pos hselects]
          cases hseen : seen.contains name with
          | true =>
              rw [List.filter_cons_of_neg (by simpa using hseen)]
              simpa using ih seen
          | false =>
              rw [List.filter_cons_of_pos (by simpa using hseen), List.eraseDups_cons,
                List.filter_filter]
              simp only [Bool.not_true, Bool.or_self, Bool.false_eq_true, if_false, ih]
              congr 3
              funext m
              rw [List.contains_cons, Bool.not_or]

theorem selection_eq_eraseDups (c : Settings) (names : List String) :
    c.selection [] names =
      (names.filter fun m => m ≠ c.builtinModule ∧ m ∉ c.skipModules).eraseDups := by
  have hselects : c.selects = fun m => decide (m ≠ c.builtinModule ∧ m ∉ c.skipModules) := by
    funext m
    rw [Bool.eq_iff_iff]
    simp [Settings.selects]
  rw [selection_eq, List.filter_eq_self.mpr (by simp), hselects]

theorem selection_perm (c : Settings) {names names' : List String} (h : names'.Perm names) :
    (c.selection [] names').Perm (c.selection [] names) := by
  rw [List.perm_ext_iff_of_nodup (nodup_selection c _ _) (nodup_selection c _ _)]
  intro m
  rw [selection_eq, selection_eq, List.mem_eraseDups, List.mem_eraseDups, List.mem_filter,
    List.mem_filter, List.mem_filter, List.mem_filter, h.mem_iff]

/-! ## Runs over the same names -/

/-- Two runs fail in the same way, or report the same, apart from the order. -/
inductive SameReport : Except Failure Generated → Except Failure Generated → Prop
  | failed (e : Failure) : SameReport (.error e) (.error e)
  | finished {g g' : Generated} : g'.written.Perm g.written → g'.skipped.Perm g.skipped →
      g'.conflicts = g.conflicts → SameReport (.ok g) (.ok g')

theorem sameReport_answer (done : Generated) {attempts attempts' : List Attempt}
    (h : attempts'.Perm attempts) :
    SameReport (.ok (answer done attempts)) (.ok (answer done attempts')) := by
  refine .finished ((h.filterMap _).append_left _) ((h.filterMap _).append_left _) ?_
  unfold answer
  rw [(h.map Attempt.conflicts).sum_eq]

theorem Attempt.Ends.settled {a : Attempt} {t : Target} {found : Extracted} (h : a.Ends t found)
    (hm : Path.IsComponent a.module) {n : ℕ} (hn : a.outcome = .ok n) : t.out.Settled a.after := by
  cases h with
  | missing => cases hn
  | unsaved => cases hn
  | saved hsaved => exact Store.settled_of_find hm hsaved.found

/-- What an undisturbed run does after the builtin module. -/
theorem generate_calm {p : Provider} {c : Settings} {out : Store} {baseline : Option Store}
    {w w' : World} {r : Except Failure Generated}
    (hnames : ∀ name ∈ c.builtinModule :: p.builtinModules, Path.IsComponent name)
    (hfaults : w.faults = []) (h : (generate host p c out baseline).run w = (r, w'))
    {first : Except Failure ℕ} {w₁ : World}
    (hfirst : (writeExtracted host ⟨out, baseline, c.placeholder⟩ c.builtinModule
      (p.extractBuiltin c.builtinModule)).run w = (first, w₁)) :
    (∃ e, first = .error e ∧ r = .error e ∧ w' = w₁) ∨
      ∃ n modules, first = .ok n ∧
        r = .ok (answer ⟨[c.builtinModule], [], n⟩ ((c.selection [] p.builtinModules).map fun m =>
          Target.attempt ⟨out, baseline, c.placeholder⟩ w₁.disk m (p.extract m))) ∧
        Tried ⟨out, baseline, c.placeholder⟩ p.extract w₁.disk modules w'.disk ∧
        ∀ m, m ∈ modules ↔ m ∈ c.selection [] p.builtinModules := by
  have hm := hnames _ List.mem_cons_self
  have hends := writeExtracted_eq hfirst
  have hfaults₁ := (calm_writeExtracted _ _ _).faults hfirst hfaults
  unfold generate at h
  dsimp only at h
  rw [run_bind_of hfirst] at h
  cases first with
  | error e =>
      rcases run_pure_eq h with ⟨rfl, rfl⟩
      exact .inl ⟨e, rfl, rfl, rfl⟩
  | ok n =>
      right
      dsimp only at h
      rcases run_bind_eq h with ⟨g, w₂, hrest, h⟩
      rcases run_bind_eq h with ⟨u, w₃, hlog, h⟩
      rcases run_pure_eq h with ⟨rfl, rfl⟩
      have hsettled : out.Settled w₁.disk := hends.settled hm rfl
      rcases writeModules_settled hsettled
        (fun name hname => hnames name (List.mem_cons_of_mem _ hname))
        (fun name hname => absurd hname List.not_mem_nil) hfaults₁ (Tried.nil _ _ _) hrest with
        ⟨rfl, modules, htried, hmem⟩
      refine ⟨n, modules, rfl, rfl, ?_, fun m => ?_⟩
      · rw [log_eq hlog]
        exact htried
      · rw [hmem]
        simp

/-- The order of the names shows in the order of the report only. -/
theorem generate_perm {p : Provider} {c : Settings} {out : Store} {baseline : Option Store}
    {names : List String} (hperm : names.Perm p.builtinModules) {w w₁ w₂ : World}
    {r r' : Except Failure Generated}
    (hnames : ∀ name ∈ c.builtinModule :: p.builtinModules, Path.IsComponent name)
    (hfaults : w.faults = []) (h : (generate host p c out baseline).run w = (r, w₁))
    (h' : (generate host { p with builtinModules := names } c out baseline).run w = (r', w₂)) :
    SameReport r r' ∧ ∀ place, w₂.disk.node? place = w₁.disk.node? place := by
  have hnames' : ∀ name ∈ c.builtinModule :: names, Path.IsComponent name := by
    intro name hname
    rw [List.mem_cons, hperm.mem_iff, ← List.mem_cons] at hname
    exact hnames name hname
  have hselection := selection_perm c hperm
  obtain ⟨first, w₀, hfirst⟩ : ∃ first w₀, (writeExtracted host ⟨out, baseline, c.placeholder⟩
    c.builtinModule (p.extractBuiltin c.builtinModule)).run w = (first, w₀) := ⟨_, _, rfl⟩
  rcases generate_calm hnames hfaults h hfirst with
    ⟨e, rfl, rfl, rfl⟩ | ⟨n, modules, rfl, rfl, htried, hmem⟩
  · rcases generate_calm hnames' hfaults h' hfirst with ⟨e', he, rfl, rfl⟩ | ⟨n, _, he, -⟩
    · cases he
      exact ⟨.failed e, fun _ => rfl⟩
    · cases he
  · rcases generate_calm hnames' hfaults h' hfirst with
      ⟨e', he, -⟩ | ⟨n', modules', he, rfl, htried', hmem'⟩
    · cases he
    · cases he
      refine ⟨sameReport_answer _ (hselection.map _), htried'.node?_eq htried fun m => ?_⟩
      rw [hmem, hmem']
      exact hselection.mem_iff

/-! ## Names and conflicts of a report -/

section
variable {attempts : List Attempt}

theorem written_sublist (attempts : List Attempt) :
    (written attempts).Sublist (attempts.map Attempt.module) := by
  induction attempts with
  | nil => exact .slnil
  | cons a attempts ih =>
      unfold written at ih ⊢
      cases hn : a.outcome with
      | ok n =>
          have hwritten : a.written? = some a.module := by rw [Attempt.written?, hn]
          rw [List.filterMap_cons_some hwritten, List.map_cons]
          exact ih.cons_cons _
      | error e =>
          have hwritten : a.written? = none := by rw [Attempt.written?, hn]
          rw [List.filterMap_cons_none hwritten, List.map_cons]
          exact ih.cons _

theorem mem_written_iff (h : (attempts.map Attempt.module).Nodup) {a : Attempt}
    (ha : a ∈ attempts) : a.module ∈ written attempts ↔ ∃ n, a.outcome = .ok n := by
  rw [mem_written]
  constructor
  · rintro ⟨b, hb, hsame, hn⟩
    rwa [List.inj_on_of_nodup_map h hb ha hsame] at hn
  · intro hn
    exact ⟨a, ha, rfl, hn⟩

/-- Who is not written is skipped. -/
theorem names_skipped {saved : List String}
    (h : ∀ a ∈ attempts, a.module ∈ saved ↔ ∃ n, a.outcome = .ok n) :
    (attempts.filterMap Attempt.skipped?).map Skipped.name =
      (attempts.map Attempt.module).filter (· ∉ saved) := by
  induction attempts with
  | nil => rfl
  | cons a attempts ih =>
      rcases List.forall_mem_cons.mp h with ⟨ha, hrest⟩
      cases hn : a.outcome with
      | ok n =>
          have hskipped : a.skipped? = none := by rw [Attempt.skipped?, hn]
          have hsaved : a.module ∈ saved := ha.mpr ⟨n, hn⟩
          rw [List.filterMap_cons_none hskipped, List.map_cons,
            List.filter_cons_of_neg (by simpa using hsaved), ih hrest]
      | error e =>
          have hskipped : a.skipped? = some ⟨a.module, e.message⟩ := by rw [Attempt.skipped?, hn]
          have hsaved : a.module ∉ saved := by
            intro hmem
            rcases ha.mp hmem with ⟨n, hn'⟩
            rw [hn] at hn'
            cases hn'
          rw [List.filterMap_cons_some hskipped, List.map_cons, List.map_cons,
            List.filter_cons_of_pos (by simpa using hsaved), ih hrest]

theorem sum_conflicts {count : String → ℕ}
    (h : ∀ a ∈ attempts, ∀ n, a.outcome = .ok n → count a.module = n) :
    (attempts.map Attempt.conflicts).sum = ((written attempts).map count).sum := by
  induction attempts with
  | nil => rfl
  | cons a attempts ih =>
      rcases List.forall_mem_cons.mp h with ⟨ha, hrest⟩
      have hih := ih hrest
      unfold written at hih ⊢
      cases hn : a.outcome with
      | ok n =>
          have hwritten : a.written? = some a.module := by rw [Attempt.written?, hn]
          have hconflicts : a.conflicts = n := by rw [Attempt.conflicts, hn]
          rw [List.filterMap_cons_some hwritten, List.map_cons, List.map_cons, List.sum_cons,
            List.sum_cons, hconflicts, ha n hn, hih]
      | error e =>
          have hwritten : a.written? = none := by rw [Attempt.written?, hn]
          have hconflicts : a.conflicts = 0 := by rw [Attempt.conflicts, hn]
          rw [List.filterMap_cons_none hwritten, List.map_cons, List.sum_cons, hconflicts, hih,
            Nat.zero_add]

/-- What is known of each attempt is known by its module. -/
theorem exists_by_module {α : Type} [Inhabited α] (f : Attempt → α)
    (h : (attempts.map Attempt.module).Nodup) :
    ∃ g : String → α, ∀ a ∈ attempts, g a.module = f a := by
  classical
  refine ⟨fun m => if hm : ∃ a ∈ attempts, a.module = m then f hm.choose else default, ?_⟩
  intro a ha
  have hm : ∃ b ∈ attempts, b.module = a.module := ⟨a, ha, rfl⟩
  dsimp only
  rw [dif_pos hm, List.inj_on_of_nodup_map h hm.choose_spec.1 ha hm.choose_spec.2]

end

/-- Number of conflicts when a module is merged with a record of the baseline. -/
def mergeConflicts (p : Provider) (c : Settings) (base : Option Record) (module : String) : ℕ :=
  match p.extracted c module with
  | .ok (fresh, _) => (Merge.report c.placeholder base fresh).conflicts.length
  | .error _ => 0

/-- What a report says of the names of a run and of the records that it merged. Each name is written
or skipped, once and in order, and the conflicts are those of the modules that are written. -/
structure Accounted (p : Provider) (c : Settings) (out : Store) (baseline : Option Store)
    (names : List String) (g : Generated) (d d' : Disk) : Prop where
  modules : ∃ others, g.written = c.builtinModule :: others ∧ others.Sublist names ∧
    g.skipped.map Skipped.name = names.filter (· ∉ others)
  conflicts : ∃ base : String → Option Record,
    g.conflicts = (g.written.map fun m => mergeConflicts p c (base m) m).sum ∧
    ∀ m ∈ g.written, ∃ fresh lines, p.extracted c m = .ok (fresh, lines) ∧
      d'.read (out.pathFor m) = .ok (Archive.encode (Merge.record c.placeholder (base m) fresh)) ∧
      ((∀ store ∈ baseline, store.Ready d) → base m = baseline.bind (·.stored? d m))

theorem generate_accounted {p : Provider} {c : Settings} {out : Store} {baseline : Option Store}
    {w w' : World} {g : Generated}
    (hnames : ∀ name ∈ c.builtinModule :: p.builtinModules, Path.IsComponent name)
    (h : (generate host p c out baseline).run w = (.ok g, w')) :
    Accounted p c out baseline (c.selection [] p.builtinModules) g w.disk w'.disk := by
  rcases generate_eq hnames h with ⟨attempts, hcourse, hreported⟩
  have hwritten := hreported.written_eq
  have hconflicts := hreported.conflicts_eq
  constructor
  · cases hreported with
    | @finished a rest n hmodules hn =>
        have hdistinct := hcourse.distinct
        rw [List.map_cons] at hmodules hdistinct
        rcases List.cons.inj hmodules with ⟨hfirst, hrest⟩
        have hhead : a.written? = some a.module := by rw [Attempt.written?, hn]
        have hnone : a.skipped? = none := by rw [Attempt.skipped?, hn]
        refine ⟨written rest, ?_, ?_, ?_⟩
        · rw [hwritten, ← hfirst]
          exact List.filterMap_cons_some hhead
        · rw [← hrest]
          exact written_sublist rest
        · have hskipped : (rest.filterMap Attempt.skipped?).map Skipped.name =
              (rest.map Attempt.module).filter (· ∉ written rest) :=
            names_skipped fun b hb => mem_written_iff (List.nodup_cons.mp hdistinct).2 hb
          rw [← hrest, ← hskipped, answer, List.nil_append, List.filterMap_cons_none hnone]
          rfl
  · let t : Target := ⟨out, baseline, c.placeholder⟩
    rcases exists_by_module (fun a => t.previous a.before a.module) hcourse.distinct with
      ⟨base, hbase⟩
    refine ⟨base, ?_, ?_⟩
    · rw [hconflicts, hwritten]
      apply sum_conflicts
      intro a ha n hn
      rcases hcourse.read_found ha hn with ⟨fresh, lines, hfound, rfl, -⟩
      rw [mergeConflicts, hfound, hbase a ha]
      rfl
    · intro m hm
      rw [hwritten] at hm
      rcases mem_written.mp hm with ⟨a, ha, rfl, n, hn⟩
      rcases hcourse.read_found ha hn with ⟨fresh, lines, hfound, -, hread⟩
      rw [hbase a ha]
      exact ⟨fresh, lines, hfound, hread, hcourse.previous ha⟩

/-- Each module is a matter of its own. Permuting the names of a snapshot changes neither a file nor
the report, apart from its order; and a report accounts for every name once. -/
theorem generate_modules_independent {s : Snapshot} {c : Settings} {out : Store}
    {baseline : Option Store}
    (hnames : ∀ name ∈ c.builtinModule :: s.builtinModules, Path.IsComponent name) :
    (∀ names, names.Perm s.builtinModules → ∀ w r w₁ r' w₂, w.faults = [] →
      (generate host (Extraction.provider s c) c out baseline).run w = (r, w₁) →
      (generate host (Extraction.provider (s.listing names) c) c out baseline).run w = (r', w₂) →
      SameReport r r' ∧ ∀ place, w₂.disk.node? place = w₁.disk.node? place) ∧
    ∀ w g w', (generate host (Extraction.provider s c) c out baseline).run w = (.ok g, w') →
      Accounted (Extraction.provider s c) c out baseline
        (s.builtinModules.filter fun m => m ≠ c.builtinModule ∧ m ∉ c.skipModules).eraseDups
        g w.disk w'.disk := by
  constructor
  · intro names hperm w r w₁ r' w₂ hfaults h h'
    rw [Extraction.provider_listing] at h'
    exact generate_perm hperm hnames hfaults h h'
  · intro w g w' h
    rw [← selection_eq_eraseDups]
    exact generate_accounted hnames h

/-- A run on the modules that share a function, under other names. -/
def renamedRun (names : List String) : Except Failure Generated × World :=
  (generate host (Extraction.provider (sharedSnapshot.listing names) {}) {} ⟨"new"⟩
    (some ⟨"old"⟩)).run richWorld

theorem generate_modules_independent_shared :
    ∃ g w₁ g' w₂, renamedRun ["sys", "lost", "sys"] = (.ok g, w₁) ∧
      renamedRun ["lost", "sys", "sys"] = (.ok g', w₂) ∧
      g = ⟨["builtins", "sys"], [⟨"lost", "module not found: lost"⟩], 1⟩ ∧
      SameReport (.ok g) (.ok g') ∧ (∀ place, w₂.disk.node? place = w₁.disk.node? place) ∧
      Accounted (Extraction.provider (sharedSnapshot.listing ["sys", "lost", "sys"]) {}) {} ⟨"new"⟩
        (some ⟨"old"⟩) ["sys", "lost"] g richWorld.disk w₁.disk := by
  have hrun : (renamedRun ["sys", "lost", "sys"]).1 =
      .ok ⟨["builtins", "sys"], [⟨"lost", "module not found: lost"⟩], 1⟩ := by decide +kernel
  have hrun' : (renamedRun ["lost", "sys", "sys"]).1 =
      .ok ⟨["builtins", "sys"], [⟨"lost", "module not found: lost"⟩], 1⟩ := by decide +kernel
  obtain ⟨⟨r, w₁⟩, h⟩ : ∃ last, renamedRun ["sys", "lost", "sys"] = last := ⟨_, rfl⟩
  obtain ⟨⟨r', w₂⟩, h'⟩ : ∃ last, renamedRun ["lost", "sys", "sys"] = last := ⟨_, rfl⟩
  rw [h] at hrun
  rw [h'] at hrun'
  subst hrun hrun'
  have hall : ∀ name ∈ ["builtins", "sys", "lost", "sys"], Path.IsComponent name := by
    decide +kernel
  rcases @generate_modules_independent (sharedSnapshot.listing ["sys", "lost", "sys"]) {} ⟨"new"⟩
    (some ⟨"old"⟩) hall with ⟨horder, hreport⟩
  have hperm : List.Perm ["lost", "sys", "sys"] ["sys", "lost", "sys"] := .swap _ _ _
  rcases horder _ hperm richWorld _ w₁ _ w₂ rfl h h' with ⟨hsame, hnodes⟩
  exact ⟨_, w₁, _, w₂, h, h', rfl, hsame, hnodes, hreport richWorld _ w₁ h⟩

end Generation
end CompletionDb
