import CompletionDb.Proofs.GenerationFrame

/-!
# Regenerating a store in place

A run may read its baseline from the store that it writes to. Each module is read before it is
written, no module is written twice and no other module touches its file, so the run reads what was
there before it, and it writes and reports what a run writes and reports that has the old records in
another store.

The two runs may differ in which files cannot be written. They are compared where nothing fails but
the extraction of modules.
-/
namespace CompletionDb.Generation
open Disk

/-- Only modules that a provider does not have were lost in a run. -/
def OnlyMissing (p : Provider) (c : Settings) : Except Failure Generated → Prop
  | .error _ => ∃ name, p.extracted c c.builtinModule = .error name
  | .ok g => ∀ s ∈ g.skipped, ∃ name, p.extracted c s.name = .error name

/-- How an attempt ends when its record can be saved. -/
def Target.outcome (t : Target) (d : Disk) (module : String) : Extracted → Except Failure ℕ
  | .error name => .error (.moduleNotFound name)
  | .ok (fresh, _) => .ok (t.conflicts d module fresh)

section
variable {p : Provider} {c : Settings} {attempts : List Attempt} {r : Except Failure Generated}

theorem Reported.missing (h : Reported (p.names c) attempts r) (honly : OnlyMissing p c r)
    {a : Attempt} (ha : a ∈ attempts) {e : Failure} (he : a.outcome = .error e) :
    ∃ name, p.extracted c a.module = .error name := by
  cases h with
  | failed hhead _ =>
      rw [List.mem_singleton.mp ha, ← Option.some.inj hhead]
      exact honly
  | finished hmodules _ =>
      refine honly ⟨a.module, e.message⟩
        (List.mem_append_right _ (List.mem_filterMap.mpr ⟨a, ha, ?_⟩))
      rw [Attempt.skipped?, he]

/-- Where records can be saved, an attempt ends as the disk before the run tells. -/
theorem Course.outcome {t : Target} {d d' : Disk} (h : Course t (p.extracted c) d attempts d')
    (hready : ∀ store ∈ t.baseline, store.Ready d) (hreported : Reported (p.names c) attempts r)
    (honly : OnlyMissing p c r) {a : Attempt} (ha : a ∈ attempts) :
    a.outcome = t.outcome d a.module (p.extracted c a.module) := by
  obtain ⟨-, -, -, -, -, -, hends, -⟩ := h.around ha
  cases houtcome : a.outcome with
  | ok n =>
      obtain ⟨fresh, lines, hfound, rfl, -⟩ := h.found ha houtcome
      rw [hfound, Target.outcome, Target.conflicts, h.previous ha hready, Target.conflicts]
  | error e =>
      obtain ⟨name, hname⟩ := hreported.missing honly ha houtcome
      rw [hname] at hends ⊢
      cases hends
      exact houtcome.symm

/-- Attempts at the same modules that end in the same way are reported in the same way. -/
theorem answer_eq_answer {outcome : String → Except Failure ℕ} {left right : List Attempt}
    (hmodules : left.map Attempt.module = right.map Attempt.module)
    (hleft : ∀ a ∈ left, a.outcome = outcome a.module)
    (hright : ∀ a ∈ right, a.outcome = outcome a.module) (done : Generated) :
    answer done left = answer done right := by
  induction left generalizing right done with
  | nil =>
      rw [List.map_nil] at hmodules
      rw [List.map_eq_nil_iff.mp hmodules.symm]
  | cons a left ih =>
      cases right with
      | nil => cases hmodules
      | cons b right =>
          obtain ⟨hmodule, hrest⟩ := List.cons.inj hmodules
          have ha := hleft a List.mem_cons_self
          have hb := hright b List.mem_cons_self
          rw [← hmodule] at hb
          have hnext := fun done => ih hrest (fun x hx => hleft x (List.mem_cons_of_mem _ hx))
            (fun x hx => hright x (List.mem_cons_of_mem _ hx)) done
          cases hend : outcome a.module with
          | ok n =>
              rw [hend] at ha hb
              rw [answer_cons_ok ha, answer_cons_ok hb, hmodule]
              exact hnext _
          | error e =>
              rw [hend] at ha hb
              rw [answer_cons_error ha, answer_cons_error hb, hmodule]
              exact hnext _

theorem Reported.eq {names : List String} (outcome : String → Except Failure ℕ)
    {left right : List Attempt} {r₁ r₂ : Except Failure Generated} (h₁ : Reported names left r₁)
    (h₂ : Reported names right r₂) (hleft : ∀ a ∈ left, a.outcome = outcome a.module)
    (hright : ∀ a ∈ right, a.outcome = outcome a.module) : r₁ = r₂ := by
  -- The first attempts are at the same module and decide which case it is.
  have hfirst : ∀ {a b : Attempt}, a ∈ left → b ∈ right → names.head? = some a.module →
      names.head? = some b.module → a.outcome = b.outcome := by
    intro a b ha hb hheada hheadb
    rw [hleft a ha, hright b hb, Option.some.inj (hheada.symm.trans hheadb)]
  cases h₁ with
  | failed hhead₁ he₁ =>
      cases h₂ with
      | failed hhead₂ he₂ =>
          have hsame := hfirst List.mem_cons_self List.mem_cons_self hhead₁ hhead₂
          rw [he₁, he₂] at hsame
          rw [Except.error.inj hsame]
      | finished hmodules₂ hn₂ =>
          have hsame := hfirst List.mem_cons_self List.mem_cons_self hhead₁
            (by rw [← hmodules₂]; rfl)
          rw [he₁, hn₂] at hsame
          cases hsame
  | finished hmodules₁ hn₁ =>
      cases h₂ with
      | failed hhead₂ he₂ =>
          have hsame := hfirst List.mem_cons_self List.mem_cons_self
            (by rw [← hmodules₁]; rfl) hhead₂
          rw [hn₁, he₂] at hsame
          cases hsame
      | finished hmodules₂ hn₂ =>
          rw [answer_eq_answer (hmodules₁.trans hmodules₂.symm) hleft hright]

end

/-- A written module can be read, and holds what was merged with the baseline before the run. -/
theorem Course.read_written {t : Target} {extracted : String → Extracted} {d d' : Disk}
    {attempts : List Attempt} (h : Course t extracted d attempts d')
    (hready : ∀ store ∈ t.baseline, store.Ready d) {module : String}
    (hmem : module ∈ written attempts) :
    ∃ fresh lines, extracted module = .ok (fresh, lines) ∧
      d'.read (t.out.pathFor module) = .ok (Archive.encode (t.merged d module fresh)) := by
  obtain ⟨a, ha, rfl, n, hn⟩ := mem_written.mp hmem
  obtain ⟨fresh, lines, hfound, -, hread⟩ := h.read_found ha hn
  rw [Target.merged, h.previous ha hready] at hread
  exact ⟨fresh, lines, hfound, hread⟩

theorem stored?_eq_bind (s : Store) (d : Disk) (module : String) :
    s.stored? d module =
      (d.read (s.pathFor module)).toOption.bind fun bytes => (Archive.decode bytes).toOption := by
  unfold Store.stored?
  cases d.read (s.pathFor module) <;> rfl

/-- A run that reads from the store it writes to reports and writes what a run does that reads a
copy of that store and writes elsewhere. When the runs start, the paths of the store and of its copy
lead to directories, or there are no files of modules in them, and each module has the same bytes in
both. Nothing is lost in the runs but modules that the provider does not have. -/
theorem generate_in_place {p : Provider} {c : Settings} {store copy out : Store}
    {w₁ w₁' w₂ w₂' : World} {r₁ r₂ : Except Failure Generated}
    (hnames : ∀ name ∈ c.builtinModule :: p.builtinModules, Path.IsComponent name)
    (hready₁ : store.Ready w₁.disk) (hready₂ : copy.Ready w₂.disk)
    (hcopy : ∀ name ∈ c.builtinModule :: p.builtinModules,
      (w₂.disk.read (copy.pathFor name)).toOption = (w₁.disk.read (store.pathFor name)).toOption)
    (h₁ : (generate host p c store (some store)).run w₁ = (r₁, w₁'))
    (h₂ : (generate host p c out (some copy)).run w₂ = (r₂, w₂'))
    (honly₁ : OnlyMissing p c r₁) (honly₂ : OnlyMissing p c r₂) :
    r₁ = r₂ ∧ ∀ g, r₁ = .ok g → ∀ module ∈ g.written, ∃ bytes,
      w₁'.disk.read (store.pathFor module) = .ok bytes ∧
      w₂'.disk.read (out.pathFor module) = .ok bytes := by
  obtain ⟨left, hcourse₁, hreported₁⟩ := generate_eq hnames h₁
  obtain ⟨right, hcourse₂, hreported₂⟩ := generate_eq hnames h₂
  have hready₁ : ∀ s ∈ some store, s.Ready w₁.disk := by
    rintro s ⟨⟩
    exact hready₁
  have hready₂ : ∀ s ∈ some copy, s.Ready w₂.disk := by
    rintro s ⟨⟩
    exact hready₂
  have hstored : ∀ module ∈ p.names c,
      copy.stored? w₂.disk module = store.stored? w₁.disk module := by
    intro module hmem
    rw [stored?_eq_bind, stored?_eq_bind]
    rcases mem_names hmem with rfl | hmem
    · rw [hcopy _ List.mem_cons_self]
    · rw [hcopy _ (List.mem_cons_of_mem _ hmem)]
  let t : Target := ⟨store, some store, c.placeholder⟩
  have hright : ∀ a ∈ right, a.outcome = t.outcome w₁.disk a.module (p.extracted c a.module) := by
    intro a ha
    have hname := hreported₂.sublist.mem (List.mem_map_of_mem ha)
    rw [hcourse₂.outcome hready₂ hreported₂ honly₂ ha]
    cases p.extracted c a.module with
    | error name => rfl
    | ok found =>
        simp only [t, Target.outcome, Target.conflicts, Target.previous, Option.bind_some,
          hstored _ hname]
  have hsame : r₁ = r₂ :=
    Reported.eq (fun module => t.outcome w₁.disk module (p.extracted c module))
      hreported₁ hreported₂ (fun a ha => hcourse₁.outcome hready₁ hreported₁ honly₁ ha) hright
  refine ⟨hsame, ?_⟩
  rintro g rfl module hmem
  subst hsame
  have hmem₁ := hmem
  have hmem₂ := hmem
  rw [hreported₁.written_eq] at hmem₁
  rw [hreported₂.written_eq] at hmem₂
  obtain ⟨fresh, lines, hfound₁, hread₁⟩ := hcourse₁.read_written hready₁ hmem₁
  obtain ⟨fresh₂, lines₂, hfound₂, hread₂⟩ := hcourse₂.read_written hready₂ hmem₂
  obtain ⟨rfl, rfl⟩ : fresh = fresh₂ ∧ lines = lines₂ := by
    rw [hfound₁] at hfound₂
    exact Prod.mk.inj (Except.ok.inj hfound₂)
  refine ⟨_, hread₁, ?_⟩
  rw [hread₂]
  have hname := hreported₁.sublist.mem (written_subset _ hmem₁)
  simp only [Target.merged, Target.previous, Option.bind_some, hstored _ hname]

/-- A store in a directory of the given name: a record that knows more than the fresh one, and a
file that is no record. -/
def keptWorld (dir : String) : World where
  disk := ⟨[([dir], .directory), ([dir, "plain.idb"], .file [1]),
    ([dir, "builtins.idb"],
      .file (Archive.encode ⟨none, [("f", .function { doc := some "f()" })]⟩))], []⟩

theorem generate_in_place_kept :
    ∃ g w₁' w₂',
      (generate host patchyProvider {} ⟨"db"⟩ (some ⟨"db"⟩)).run (keptWorld "db") = (.ok g, w₁') ∧
      (generate host patchyProvider {} ⟨"new"⟩ (some ⟨"copy"⟩)).run (keptWorld "copy") =
        (.ok g, w₂') ∧
      g.written = ["builtins", "held", "plain"] ∧
      ∀ module ∈ g.written, ∃ bytes, w₁'.disk.read (Store.pathFor ⟨"db"⟩ module) = .ok bytes ∧
        w₂'.disk.read (Store.pathFor ⟨"new"⟩ module) = .ok bytes := by
  let g : Generated := ⟨["builtins", "held", "plain"], [⟨"lost", "module not found: lost"⟩], 0⟩
  have hrun₁ : ((generate host patchyProvider {} ⟨"db"⟩ (some ⟨"db"⟩)).run (keptWorld "db")).1 =
      .ok g := by decide +kernel
  have hrun₂ : ((generate host patchyProvider {} ⟨"new"⟩ (some ⟨"copy"⟩)).run
      (keptWorld "copy")).1 = .ok g := by decide +kernel
  obtain ⟨⟨r₁, w₁'⟩, h₁⟩ : ∃ last, (generate host patchyProvider {} ⟨"db"⟩ (some ⟨"db"⟩)).run
      (keptWorld "db") = last := ⟨_, rfl⟩
  obtain ⟨⟨r₂, w₂'⟩, h₂⟩ : ∃ last, (generate host patchyProvider {} ⟨"new"⟩ (some ⟨"copy"⟩)).run
      (keptWorld "copy") = last := ⟨_, rfl⟩
  rw [h₁] at hrun₁
  rw [h₂] at hrun₂
  subst hrun₁ hrun₂
  have honly : OnlyMissing patchyProvider {} (.ok g) := by
    intro s hs
    rw [List.mem_singleton.mp hs]
    exact ⟨"lost", rfl⟩
  have hall : ∀ name ∈ "builtins" :: patchyProvider.builtinModules, Path.IsComponent name := by
    decide +kernel
  obtain ⟨-, hbytes⟩ := generate_in_place hall
    (.inl (by decide +kernel)) (.inl (by decide +kernel)) (by decide +kernel) h₁ h₂ honly honly
  exact ⟨g, w₁', w₂', h₁, h₂, rfl, hbytes g rfl⟩

end CompletionDb.Generation
