import CompletionDb.Proofs.GenerationTrace

/-!
# Which files a run changes

An attempt that saves nothing leaves every file as it was, and one that saves changes the file of
its own module only. As no name is tried twice, a run therefore changes the files of the modules it
reports as written and no others, each once, and each attempt finds the file of its module as it was
before the run. Temporary files are gone when the run ends.

A temporary file that is there before the run would be overwritten and lost. Statements about all
files of the disk take the temporary ones to be unused.
-/
namespace CompletionDb

namespace Store
open Disk

/-- The places of the files of some modules. -/
def filesOf (s : Store) (d : Disk) (modules : List String) : Set Place :=
  {q | ∃ module ∈ modules, q = s.placeOn d module}

/-- The places of their temporary files. -/
def tempsOf (s : Store) (d : Disk) (modules : List String) : Set Place :=
  {q | ∃ module ∈ modules, q = s.tempOn d module}

/-- What is left when records of some modules were to be saved and some of them were. -/
structure Touched (s : Store) (tried saved : List String) (d d' : Disk) : Prop where
  frame : d.Frame (s.filesOf d saved ∪ s.tempsOf d tried) d'
  spent : ∀ module, Path.IsComponent module →
    d'.file? (s.tempOn d module) = none ∨
      d'.file? (s.tempOn d module) = d.file? (s.tempOn d module)

section
variable {s other : Store} {d d' : Disk} {tried saved : List String} {module : String}

@[simp] theorem filesOf_append (s : Store) (d : Disk) (a b : List String) :
    s.filesOf d (a ++ b) = s.filesOf d a ∪ s.filesOf d b := by
  ext q
  simp only [filesOf, List.mem_append, Set.mem_ofPred_eq, Set.mem_union, or_and_right, exists_or]

@[simp] theorem tempsOf_append (s : Store) (d : Disk) (a b : List String) :
    s.tempsOf d (a ++ b) = s.tempsOf d a ∪ s.tempsOf d b := by
  ext q
  simp only [tempsOf, List.mem_append, Set.mem_ofPred_eq, Set.mem_union, or_and_right, exists_or]

theorem Touched.refl (s : Store) (tried saved : List String) (d : Disk) :
    s.Touched tried saved d d :=
  ⟨.refl _ _, fun _ _ => .inr rfl⟩

theorem Touched.trans {d₁ : Disk} {tried' saved' : List String} (h : s.Touched tried saved d d₁)
    (h' : s.Touched tried' saved' d₁ d') : s.Touched (tried ++ tried') (saved ++ saved') d d' := by
  have htemp : ∀ module, s.tempOn d₁ module = s.tempOn d module := fun _ => h.frame.keeps.placeOf _
  constructor
  · have hframe := h'.frame
    have hfiles : s.filesOf d₁ saved' = s.filesOf d saved' := by
      simp only [filesOf, placeOn, h.frame.keeps.placeOf]
    have htemps : s.tempsOf d₁ tried' = s.tempsOf d tried' := by
      simp only [tempsOf, htemp]
    rw [hfiles, htemps] at hframe
    rw [filesOf_append, tempsOf_append]
    refine (h.frame.mono ?_).trans (hframe.mono ?_)
    · exact Set.union_subset_union Set.subset_union_left Set.subset_union_left
    · exact Set.union_subset_union Set.subset_union_right Set.subset_union_right
  · intro module hm
    have hlater := h'.spent module hm
    rw [htemp] at hlater
    rcases hlater with hgone | hsame
    · exact .inl hgone
    · rw [hsame]
      exact h.spent module hm

/-- A temporary file is another one or the one that was spent. -/
theorem spent_of_frame {places : Set Place}
    (hframe : d.Frame (insert (s.tempOn d module) places) d')
    (hplaces : ∀ name, Path.IsComponent name → s.tempOn d name ∉ places)
    (hspent : d'.file? (s.tempOn d module) = none ∨
      d'.file? (s.tempOn d module) = d.file? (s.tempOn d module))
    {name : String} (hname : Path.IsComponent name) :
    d'.file? (s.tempOn d name) = none ∨ d'.file? (s.tempOn d name) = d.file? (s.tempOn d name) := by
  by_cases heq : s.tempOn d name = s.tempOn d module
  · rw [heq]
    exact hspent
  · right
    apply hframe.files
    rw [Set.mem_insert_iff]
    exact fun hmem => hmem.elim heq (hplaces name hname)

theorem touched_of_unsaved (h : s.Unsaved module d d') : s.Touched [module] [] d d' := by
  constructor
  · apply h.frame.mono
    rw [Set.singleton_subset_iff]
    exact .inr ⟨module, List.mem_singleton.mpr rfl, rfl⟩
  · intro name hname
    have hframe := h.frame
    rw [← insert_empty_eq] at hframe
    exact spent_of_frame hframe (fun _ _ => Set.notMem_empty _) h.spent hname

theorem touched_of_saved {bytes : List UInt8} (hm : Path.IsComponent module)
    (h : s.Saved module bytes d d') : s.Touched [module] [module] d d' := by
  constructor
  · apply h.frame.mono
    rw [Set.insert_subset_iff, Set.singleton_subset_iff]
    constructor
    · exact .inr ⟨module, List.mem_singleton.mpr rfl, rfl⟩
    · exact .inl ⟨module, List.mem_singleton.mpr rfl, rfl⟩
  · intro name hname
    refine spent_of_frame h.frame (fun other hother => ?_) (.inl h.spent) hname
    rw [Set.mem_singleton_iff]
    exact (s.placeOn_ne_tempOn d hm hother s).symm

/-- Only saving the record of a module changes its file. -/
theorem Touched.file? (h : s.Touched tried saved d d')
    (htried : ∀ name ∈ tried, Path.IsComponent name) (hsaved : saved ⊆ tried)
    (hm : Path.IsComponent module) (hnot : module ∉ saved) (other : Store) :
    d'.file? (other.placeOn d module) = d.file? (other.placeOn d module) := by
  apply h.frame.files
  rintro (⟨name, hname, hplace⟩ | ⟨name, hname, hplace⟩)
  · rw [placeOn_inj hm.noSlash (htried name (hsaved hname)).noSlash hplace] at hnot
    exact hnot hname
  · exact other.placeOn_ne_tempOn d hm (htried name hname) s hplace

/-- Where no temporary file was there before, none is left and the other files that have changed are
those of the saved records. -/
theorem Touched.frame_of_unused (h : s.Touched tried saved d d')
    (htried : ∀ name ∈ tried, Path.IsComponent name)
    (hunused : ∀ name ∈ tried, d.file? (s.tempOn d name) = none) :
    d.Frame (s.filesOf d saved) d' := by
  refine ⟨h.frame.keeps, fun q hq => ?_⟩
  by_cases htemp : q ∈ s.tempsOf d tried
  · obtain ⟨name, hname, htemp⟩ := htemp
    rw [htemp]
    rcases h.spent name (htried name hname) with hgone | hsame
    · rw [hgone, hunused name hname]
    · exact hsame
  · exact h.frame.files q fun hmem => hmem.elim hq htemp

end
end Store

namespace Generation
open Disk

/-- The modules that attempts have written. -/
def written (attempts : List Attempt) : List String := attempts.filterMap Attempt.written?

theorem mem_written {attempts : List Attempt} {module : String} :
    module ∈ written attempts ↔ ∃ a ∈ attempts, a.module = module ∧ ∃ n, a.outcome = .ok n := by
  unfold written
  rw [List.mem_filterMap]
  apply exists_congr
  intro a
  unfold Attempt.written?
  cases a.outcome <;> simp

theorem written_subset (attempts : List Attempt) :
    written attempts ⊆ attempts.map Attempt.module := by
  intro module hmem
  obtain ⟨a, ha, rfl, -⟩ := mem_written.mp hmem
  exact List.mem_map_of_mem ha

section
variable {t : Target} {extracted : String → Extracted}

/-- What one attempt changes. -/
theorem Attempt.Ends.touched {a : Attempt} {found : Extracted} (h : a.Ends t found)
    (hm : Path.IsComponent a.module) :
    t.out.Touched [a.module] (written [a]) a.before a.after := by
  cases h with
  | missing => exact .refl _ _ _ _
  | unsaved e hunsaved => exact Store.touched_of_unsaved hunsaved
  | saved hsaved => exact Store.touched_of_saved hm hsaved

variable {attempts : List Attempt} {d d' : Disk}

/-- What attempts change, one after the other. -/
theorem Chain.touched (hmodules : ∀ a ∈ attempts, Path.IsComponent a.module)
    (h : Chain t extracted d attempts d') :
    t.out.Touched (attempts.map Attempt.module) (written attempts) d d' := by
  induction h with
  | nil d => exact .refl _ _ _ _
  | @cons a rest d d' hbefore hends hrest ih =>
      subst hbefore
      have hstep := hends.touched (hmodules a List.mem_cons_self)
      have hrun := hstep.trans (ih fun b hb => hmodules b (List.mem_cons_of_mem _ hb))
      have hsplit : written (a :: rest) = written [a] ++ written rest := by
        rw [written, ← List.singleton_append, List.filterMap_append]
        rfl
      rw [hsplit]
      exact hrun

theorem Chain.split {before after : List Attempt}
    (h : Chain t extracted d (before ++ after) d') :
    ∃ mid, Chain t extracted d before mid ∧ Chain t extracted mid after d' := by
  induction before generalizing d with
  | nil => exact ⟨d, .nil d, h⟩
  | cons a before ih =>
      rw [List.cons_append] at h
      cases h with
      | cons hbefore hends hrest =>
          obtain ⟨mid, hfirst, hsecond⟩ := ih hrest
          exact ⟨mid, .cons hbefore hends hfirst, hsecond⟩

theorem Course.components (h : Course t extracted d attempts d') :
    ∀ name ∈ attempts.map Attempt.module, Path.IsComponent name := by
  intro name hname
  obtain ⟨a, ha, rfl⟩ := List.mem_map.mp hname
  exact h.modules a ha

theorem Course.touched (h : Course t extracted d attempts d') :
    t.out.Touched (attempts.map Attempt.module) (written attempts) d d' :=
  h.chain.touched h.modules

/-- The files of a module that is not tried stay as they are, in whatever stores. -/
theorem Course.file? (h : Course t extracted d attempts d') {module : String}
    (hm : Path.IsComponent module) (hnot : module ∉ attempts.map Attempt.module) (store : Store) :
    d'.file? (store.placeOn d module) = d.file? (store.placeOn d module) :=
  h.touched.file? h.components (written_subset attempts) hm
    (fun hmem => hnot (written_subset attempts hmem)) store

/-- What comes before an attempt and after it are attempts at other modules. -/
theorem Course.around (h : Course t extracted d attempts d') {a : Attempt} (ha : a ∈ attempts) :
    ∃ before after, attempts = before ++ a :: after ∧
      a.module ∉ before.map Attempt.module ∧ a.module ∉ after.map Attempt.module ∧
      Course t extracted d before a.before ∧ a.Ends t (extracted a.module) ∧
      Course t extracted a.after after d' := by
  obtain ⟨hchain, hmodules, hdistinct⟩ := h
  obtain ⟨before, after, rfl⟩ := List.append_of_mem ha
  obtain ⟨mid, hfirst, hsecond⟩ := hchain.split
  rw [List.map_append, List.map_cons] at hdistinct
  obtain ⟨hbefore, hafter, hdisjoint⟩ := List.nodup_append.mp hdistinct
  cases hsecond with
  | cons hstart hends hrest =>
      subst hstart
      refine ⟨before, after, rfl, ?_, (List.nodup_cons.mp hafter).1, ⟨hfirst, ?_, hbefore⟩, hends,
        ⟨hrest, ?_, (List.nodup_cons.mp hafter).2⟩⟩
      · exact fun hmem => hdisjoint _ hmem _ List.mem_cons_self rfl
      · exact fun b hb => hmodules b (List.mem_append_left _ hb)
      · exact fun b hb => hmodules b (List.mem_append_right _ (List.mem_cons_of_mem _ hb))

/-- An attempt finds the files of its module as they were before the run. -/
theorem Course.turn (h : Course t extracted d attempts d') {a : Attempt} (ha : a ∈ attempts) :
    d.Keeps a.before ∧ ∀ store : Store,
      a.before.file? (store.placeOn d a.module) = d.file? (store.placeOn d a.module) := by
  obtain ⟨before, after, rfl, hnew, -, hfirst, -, -⟩ := h.around ha
  exact ⟨hfirst.touched.frame.keeps, hfirst.file? (h.modules a ha) hnew⟩

/-- It finds there what a ready baseline had for the module. -/
theorem Course.previous (h : Course t extracted d attempts d') {a : Attempt} (ha : a ∈ attempts)
    (hready : ∀ store ∈ t.baseline, store.Ready d) :
    t.previous a.before a.module = t.previous d a.module := by
  obtain ⟨hkeeps, hfile⟩ := h.turn ha
  unfold Target.previous
  cases hbaseline : t.baseline with
  | none => rw [Option.bind_none, Option.bind_none]
  | some store =>
      rw [Option.bind_some, Option.bind_some]
      exact (hready store hbaseline).stored? (h.modules a ha) hkeeps (hfile store)

/-- What an attempt has written is there at the end. -/
theorem Course.found (h : Course t extracted d attempts d') {a : Attempt} (ha : a ∈ attempts)
    {n : ℕ} (hn : a.outcome = .ok n) :
    ∃ fresh lines, extracted a.module = .ok (fresh, lines) ∧
      n = t.conflicts a.before a.module fresh ∧
      d'.find (t.out.pathFor a.module) = .ok (t.out.placeOn d a.module,
        .file (Archive.encode (t.merged a.before a.module fresh))) := by
  have hturn := (h.turn ha).1
  obtain ⟨before, after, rfl, -, hnew, -, hends, hlast⟩ := h.around ha
  have hsame := hlast.file? (h.modules a ha) hnew t.out
  obtain ⟨module, start, stop, outcome⟩ := a
  dsimp only at *
  subst hn
  cases hfound : extracted module with
  | error name =>
      rw [hfound] at hends
      cases hends
  | ok found =>
      rw [hfound] at hends
      cases hends with
      | @saved _ fresh lines _ _ hsaved =>
          refine ⟨fresh, lines, rfl, rfl, ?_⟩
          have hstart : t.out.placeOn start module = t.out.placeOn d module := hturn.placeOf _
          have hstop : t.out.placeOn stop module = t.out.placeOn d module :=
            (hsaved.frame.keeps.placeOf _).trans hstart
          obtain ⟨hleads, hnode, hslash⟩ := find_eq_file hsaved.found
          rw [hstart] at hleads hnode
          rw [hstop] at hsame
          apply hleads.find hlast.touched.frame.keeps hslash
          rw [← file?_eq_some, hsame, file?_eq_some, hnode]

theorem Course.read_found (h : Course t extracted d attempts d') {a : Attempt} (ha : a ∈ attempts)
    {n : ℕ} (hn : a.outcome = .ok n) :
    ∃ fresh lines, extracted a.module = .ok (fresh, lines) ∧
      n = t.conflicts a.before a.module fresh ∧
      d'.read (t.out.pathFor a.module) =
        .ok (Archive.encode (t.merged a.before a.module fresh)) := by
  obtain ⟨fresh, lines, hfound, hconflicts, hfind⟩ := h.found ha hn
  exact ⟨fresh, lines, hfound, hconflicts, Store.read_of_find hfind⟩

end

/-! ## Whole runs -/

/-- What a run that answers has done to the disk. The record that it merged for a module is the one
that the baseline had when the turn of that module came. -/
structure Rewritten (p : Provider) (c : Settings) (t : Target) (g : Generated) (d d' : Disk) :
    Prop where
  frame : d.Frame (t.out.filesOf d g.written) d'
  written : ∀ module ∈ g.written, ∃ fresh lines mid,
    p.extracted c module = .ok (fresh, lines) ∧
    d.Frame (t.out.filesOf d (g.written.filter (· ≠ module))) mid ∧
    ((∀ store ∈ t.baseline, store.Ready d) → t.previous mid module = t.previous d module) ∧
    d'.find (t.out.pathFor module) =
      .ok (t.out.placeOn d module, .file (Archive.encode (t.merged mid module fresh)))
  skipped : ∀ s ∈ g.skipped,
    d'.file? (t.out.placeOn d s.name) = d.file? (t.out.placeOn d s.name)
  spent : ∀ module ∈ c.builtinModule :: p.builtinModules, d'.file? (t.out.tempOn d module) = none

section
variable {t : Target} {extracted : String → Extracted} {attempts : List Attempt} {d d' : Disk}

theorem Course.written_at_turn (h : Course t extracted d attempts d')
    (hunused : ∀ a ∈ attempts, d.file? (t.out.tempOn d a.module) = none) {a : Attempt}
    (ha : a ∈ attempts) :
    d.Frame (t.out.filesOf d ((written attempts).filter (· ≠ a.module))) a.before := by
  obtain ⟨before, after, rfl, hnew, -, hfirst, -, -⟩ := h.around ha
  have hframe : d.Frame (t.out.filesOf d (written before)) a.before := by
    apply hfirst.touched.frame_of_unused hfirst.components
    intro name hname
    obtain ⟨b, hb, rfl⟩ := List.mem_map.mp hname
    exact hunused b (List.mem_append_left _ hb)
  apply hframe.mono
  rintro q ⟨name, hname, hq⟩
  refine ⟨name, List.mem_filter.mpr ⟨?_, ?_⟩, hq⟩
  · rw [written, List.filterMap_append]
    exact List.mem_append_left _ hname
  · rw [decide_eq_true_eq]
    rintro rfl
    exact hnew (written_subset before hname)

end

theorem Reported.written_eq {names : List String} {attempts : List Attempt} {g : Generated}
    (h : Reported names attempts (.ok g)) : g.written = written attempts := by
  cases h with
  | finished => exact List.nil_append _

theorem mem_skipped {attempts : List Attempt} {s : Skipped}
    (h : s ∈ attempts.filterMap Attempt.skipped?) :
    ∃ a ∈ attempts, a.module = s.name ∧ ∃ e, a.outcome = .error e := by
  obtain ⟨a, ha, hs⟩ := List.mem_filterMap.mp h
  refine ⟨a, ha, ?_⟩
  unfold Attempt.skipped? at hs
  split at hs
  · cases hs
  · rename_i e he
    cases hs
    exact ⟨rfl, e, he⟩

/-- A run that fails changes no file. A run that answers changes the files of the modules that it
reports as written. -/
theorem generate_changes_only_written {p : Provider} {c : Settings} {out : Store}
    {baseline : Option Store} {w w' : World} {r : Except Failure Generated}
    (hnames : ∀ name ∈ c.builtinModule :: p.builtinModules, Path.IsComponent name)
    (hunused : ∀ name ∈ c.builtinModule :: p.builtinModules,
      w.disk.file? (out.tempOn w.disk name) = none)
    (h : (generate host p c out baseline).run w = (r, w')) :
    match r with
    | .error _ => w.disk.Frame ∅ w'.disk
    | .ok g => Rewritten p c ⟨out, baseline, c.placeholder⟩ g w.disk w'.disk := by
  obtain ⟨attempts, hcourse, hreported⟩ := generate_eq hnames h
  have htried : ∀ name ∈ attempts.map Attempt.module,
      w.disk.file? (out.tempOn w.disk name) = none := by
    intro name hname
    rcases mem_names (hreported.sublist.mem hname) with rfl | hmem
    · exact hunused _ List.mem_cons_self
    · exact hunused _ (List.mem_cons_of_mem _ hmem)
  have hframe := hcourse.touched.frame_of_unused hcourse.components htried
  cases hreported with
  | @failed a e _ he =>
      have hnone : written [a] = [] := by simp [written, Attempt.written?, he]
      refine ⟨hframe.keeps, fun q _ => hframe.files q ?_⟩
      rw [hnone]
      rintro ⟨name, hname, -⟩
      cases hname
  | @finished a rest n hmodules hn =>
      have hwritten := (Reported.finished hmodules hn).written_eq
      constructor
      · rw [hwritten]
        exact hframe
      · intro module hmem
        rw [hwritten] at hmem ⊢
        obtain ⟨b, hb, rfl, k, hk⟩ := mem_written.mp hmem
        obtain ⟨fresh, lines, hfound, -, hfile⟩ := hcourse.found hb hk
        refine ⟨fresh, lines, b.before, hfound, ?_, hcourse.previous hb, hfile⟩
        exact hcourse.written_at_turn (fun a ha => htried _ (List.mem_map_of_mem ha)) hb
      · intro s hs
        have hlater := (List.mem_append.mp hs).resolve_left List.not_mem_nil
        obtain ⟨b, hb, hname, e, he⟩ := mem_skipped hlater
        rw [← hname]
        apply hcourse.touched.file? hcourse.components (written_subset _) (hcourse.modules b hb)
        intro hmem
        obtain ⟨b', hb', hsame, k, hk⟩ := mem_written.mp hmem
        obtain rfl := List.inj_on_of_nodup_map hcourse.distinct hb' hb hsame
        rw [he] at hk
        cases hk
      · intro module hmem
        rw [hframe.files, hunused module hmem]
        rintro ⟨name, hname, hplace⟩
        exact out.placeOn_ne_tempOn w.disk (hcourse.components name (written_subset _ hname))
          (hnames module hmem) out hplace.symm

/-- A provider with a name that it cannot extract and a name that it lists twice. -/
def patchyProvider : Provider where
  builtinModules := ["lost", "held", "plain", "held", "builtins"]
  extractBuiltin _ := .ok (⟨none, [("f", .function {})]⟩, [])
  extract module := if module = "lost" then .error module else .ok ({}, [])

/-- A store whose second file cannot be moved into place. -/
def heldWorld : World where
  disk := ⟨[(["db"], .directory), (["db", "held.idb"], .file [1])], []⟩
  faults := [none, none, none, none, none, some (.other "disk full")]

theorem generate_changes_only_written_held :
    ∃ g w', (generate host patchyProvider {} ⟨"db"⟩ (some ⟨"db"⟩)).run heldWorld = (.ok g, w') ∧
      g.written = ["builtins", "plain"] ∧ g.skipped.map Skipped.name = ["lost", "held"] ∧
      Rewritten patchyProvider {} ⟨⟨"db"⟩, some ⟨"db"⟩, Settings.placeholder {}⟩ g heldWorld.disk
        w'.disk := by
  have hrun : ((generate host patchyProvider {} ⟨"db"⟩ (some ⟨"db"⟩)).run heldWorld).1 =
      .ok ⟨["builtins", "plain"], [⟨"lost", "module not found: lost"⟩,
        ⟨"held", "store error: IO error at db/held.idb: disk full"⟩], 0⟩ := by decide +kernel
  obtain ⟨⟨r, w'⟩, hworld⟩ : ∃ last,
      (generate host patchyProvider {} ⟨"db"⟩ (some ⟨"db"⟩)).run heldWorld = last := ⟨_, rfl⟩
  rw [hworld] at hrun
  subst hrun
  have hall : ∀ name ∈ "builtins" :: patchyProvider.builtinModules, Path.IsComponent name := by
    decide +kernel
  refine ⟨_, w', hworld, rfl, rfl, generate_changes_only_written hall ?_ hworld⟩
  decide +kernel

end Generation
end CompletionDb
