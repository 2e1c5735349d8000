import Mathlib.Algebra.BigOperators.Group.List.Basic
import CompletionDb.Proofs.ExtractedRecords
import CompletionDb.Proofs.MergeReport
import CompletionDb.Proofs.ReaderLimit
import CompletionDb.Proofs.RegenerationInPlace

/-!
# Regenerating changes nothing

A run writes the merge of what it extracts with what its baseline knew. If the output is the
baseline of a second run of the same snapshot, each record is read back as it was written, and
merging the fresh record with it gives that record again: the second run writes the same bytes and
finds no kinds in conflict.

For this the records have to be read back at all. The reader goes 1023 levels deep, the payload of a
record nests at most three levels for each type around a member and nine besides, and the settings
bound the types, so a depth of 300 is well within. The snapshot has to be in order, as those that
are loaded are (`Snapshot.ordered_of_ofDocument`).
-/
namespace CompletionDb

namespace Store
open Disk

/-- A store with a file that can be read is ready. -/
theorem ready_of_read {s : Store} {d : Disk} {module : String} (hm : Path.IsComponent module)
    {bytes : List UInt8} (h : d.read (s.pathFor module) = .ok bytes) : s.Ready d := by
  obtain ⟨⟨-, -, dir, part, hlocate, -, hplace⟩, -, -⟩ := find_eq_file (read_eq_ok.mp h)
  obtain ⟨-, hdescend, hlast⟩ := locate_eq_ok.mp hlocate
  rw [rawParts_pathFor s hm.noSlash, isAbsolute_pathFor s hm.noSlash,
    List.dropLast_concat] at hdescend
  have hdir : dir = d.placeOf s.root := by
    rw [placeOf_pathFor d s hm.noSlash] at hplace
    exact (List.append_inj_left' hplace rfl).symm
  left
  rw [hdescend, hdir]

end Store

namespace Generation
open Disk

/-- Records of the baseline that are on the disk have no size that is too large. -/
def BaselineSized (baseline : Option Store) (d : Disk) (module : String) : Prop :=
  ∀ store ∈ baseline, ∀ bytes r, d.file? (store.placeOn d module) = some bytes →
    Archive.decode bytes = .ok r → r.Sized

section
variable {t : Target} {extracted : String → Extracted} {attempts : List Attempt} {d d' : Disk}

/-- What an attempt reads from the baseline was on the disk before the run. -/
theorem Course.sized_previous (h : Course t extracted d attempts d') {a : Attempt}
    (ha : a ∈ attempts) (hold : BaselineSized t.baseline d a.module) :
    ∀ r ∈ t.previous a.before a.module, r.Sized := by
  intro r hr
  obtain ⟨store, hstore, hstored⟩ := Option.bind_eq_some_iff.mp hr
  obtain ⟨bytes, hfind, hdecode⟩ := Store.stored?_eq_some.mp hstored
  have hthere : a.before.file? (store.placeOn a.before a.module) = some bytes :=
    file?_eq_some.mpr (find_eq_file hfind).2.1
  obtain ⟨hkeeps, hfile⟩ := h.turn ha
  have hplace : store.placeOn a.before a.module = store.placeOn d a.module := hkeeps.placeOf _
  rw [hplace, hfile] at hthere
  exact hold store hstore bytes r hthere hdecode

/-- What a run writes is read back as the merged record, if that nests within the reader's depth. -/
theorem Course.stored?_written (h : Course t extracted d attempts d') {module : String}
    (hmem : module ∈ written attempts) {n : ℕ} (hn : 3 * n + 9 ≤ Pack.maxDepth)
    (hfresh : ∀ r lines, extracted module = .ok (r, lines) → r.Ordered ∧ r.Within n ∧ r.Sized)
    (hold : BaselineSized t.baseline d module) :
    t.out.Ready d' ∧ ∃ fresh lines base, extracted module = .ok (fresh, lines) ∧
      d'.read (t.out.pathFor module) =
        .ok (Archive.encode (Merge.record t.placeholder base fresh)) ∧
      t.out.stored? d' module = some (Merge.record t.placeholder base fresh) := by
  obtain ⟨a, ha, rfl, k, hk⟩ := mem_written.mp hmem
  obtain ⟨fresh, lines, hfound, -, hread⟩ := h.read_found ha hk
  obtain ⟨hordered, hwithin, hsized⟩ := hfresh fresh lines hfound
  have hfits := Merge.fits_record t.placeholder hordered hwithin hsized (h.sized_previous ha hold)
  have hdecode := Archive.decode_encode_of_levels_le hfits.ordered hfits.sized
    (hfits.nested.trans hn)
  exact ⟨Store.ready_of_read (h.modules a ha) hread, fresh, lines, _, hfound, hread,
    Store.stored?_eq_some.mpr ⟨_, Store.read_eq_ok.mp hread, hdecode⟩⟩

theorem Reported.conflicts_eq {names : List String} {g : Generated}
    (h : Reported names attempts (.ok g)) : g.conflicts = (attempts.map Attempt.conflicts).sum := by
  cases h with
  | finished => exact Nat.zero_add _

/-- Where the baseline has what the fresh record was merged to before, it is written once more. -/
theorem Course.unchanged {out baseline : Store} {placeholder : TypeName}
    (h : Course ⟨out, some baseline, placeholder⟩ extracted d attempts d')
    (hready : baseline.Ready d) {a : Attempt} (ha : a ∈ attempts) {n : ℕ} (hn : a.outcome = .ok n)
    {fresh : Record} {lines : List LogLine} {base : Option Record}
    (hfound : extracted a.module = .ok (fresh, lines)) (hordered : fresh.Ordered)
    (hstored : baseline.stored? d a.module = some (Merge.record placeholder base fresh)) :
    n = 0 ∧ d'.read (out.pathFor a.module) =
      .ok (Archive.encode (Merge.record placeholder base fresh)) := by
  obtain ⟨fresh', lines', hfound', hconflicts, hread⟩ := h.read_found ha hn
  obtain ⟨rfl, rfl⟩ : fresh = fresh' ∧ lines = lines' := by
    rw [hfound] at hfound'
    exact Prod.mk.inj (Except.ok.inj hfound')
  have hprevious := h.previous ha (by rintro store ⟨⟩; exact hready)
  rw [Target.previous, Target.previous, Option.bind_some, Option.bind_some, hstored] at hprevious
  constructor
  · rw [hconflicts, Target.conflicts, Target.previous, Option.bind_some, hprevious,
      Merge.conflicts_report_record placeholder hordered base, List.length_nil]
  · rw [Target.merged, Target.previous, Option.bind_some, hprevious,
      Merge.record_record placeholder hordered base] at hread
    exact hread

end

open Extraction in
theorem regular_of_extracted {s : Snapshot} {c : Settings} (hs : s.Ordered) {module : String}
    {r : Record} {lines : List LogLine}
    (h : (provider s c).extracted c module = .ok (r, lines)) : Regular c r := by
  unfold Provider.extracted at h
  split_ifs at h
  · exact regular_extractBuiltin hs h
  · exact regular_extract hs h

/-- A run over the output of a run of the same snapshot writes the same files and finds no
conflict. -/
theorem regeneration_fixpoint {s : Snapshot} {c : Settings} {baseline : Option Store}
    {out₁ out₂ : Store} {w₁ w₁' w₂ w₂' : World} {g₁ g₂ : Generated} (hs : s.Ordered)
    (hdepth : c.maxTypeDepth ≤ 300)
    (hnames : ∀ name ∈ c.builtinModule :: s.builtinModules, Path.IsComponent name)
    (hfresh : ∀ name ∈ c.builtinModule :: s.builtinModules, ∀ r lines,
      (Extraction.provider s c).extracted c name = .ok (r, lines) → r.Sized)
    (hold : ∀ name ∈ c.builtinModule :: s.builtinModules, BaselineSized baseline w₁.disk name)
    (h₁ : (generate host (Extraction.provider s c) c out₁ baseline).run w₁ = (.ok g₁, w₁'))
    (hdisk : w₂.disk = w₁'.disk)
    (h₂ : (generate host (Extraction.provider s c) c out₂ (some out₁)).run w₂ = (.ok g₂, w₂'))
    (hwritten : g₂.written = g₁.written) :
    (∀ module ∈ g₁.written, ∃ bytes, w₁'.disk.read (out₁.pathFor module) = .ok bytes ∧
      w₂'.disk.read (out₂.pathFor module) = .ok bytes) ∧ g₂.conflicts = 0 := by
  obtain ⟨left, hcourse₁, hreported₁⟩ := generate_eq hnames h₁
  obtain ⟨right, hcourse₂, hreported₂⟩ := generate_eq hnames h₂
  -- Both runs have written the same modules, and the second reads what the first wrote.
  have hsame : written right = written left := by
    rw [← hreported₂.written_eq, hwritten, hreported₁.written_eq]
  have hback : ∀ module ∈ written right, out₁.Ready w₂.disk ∧ ∃ fresh lines base,
      (Extraction.provider s c).extracted c module = .ok (fresh, lines) ∧ fresh.Ordered ∧
      w₁'.disk.read (out₁.pathFor module) =
        .ok (Archive.encode (Merge.record c.placeholder base fresh)) ∧
      out₁.stored? w₂.disk module = some (Merge.record c.placeholder base fresh) := by
    intro module hmem
    rw [hsame] at hmem
    have hname : module ∈ c.builtinModule :: s.builtinModules := by
      rw [List.mem_cons]
      exact mem_names (hreported₁.sublist.mem (written_subset left hmem))
    obtain ⟨hready, fresh, lines, base, hfound, hread, hstored⟩ :=
      hcourse₁.stored?_written hmem (show 3 * c.maxTypeDepth + 9 ≤ Pack.maxDepth by
        unfold Pack.maxDepth
        omega)
        (fun r lines hr => ⟨(regular_of_extracted hs hr).ordered,
          (regular_of_extracted hs hr).within, hfresh module hname r lines hr⟩) (hold module hname)
    rw [← hdisk] at hready hstored
    exact ⟨hready, fresh, lines, base, hfound, (regular_of_extracted hs hfound).ordered, hread,
      hstored⟩
  constructor
  · intro module hmem
    rw [hreported₁.written_eq, ← hsame] at hmem
    obtain ⟨a, ha, rfl, n, hn⟩ := mem_written.mp hmem
    obtain ⟨hready, fresh, lines, base, hfound, hordered, hread, hstored⟩ := hback _ hmem
    exact ⟨_, hread, (hcourse₂.unchanged hready ha hn hfound hordered hstored).2⟩
  · rw [hreported₂.conflicts_eq]
    apply List.sum_eq_zero
    rw [List.forall_mem_map]
    intro a ha
    unfold Attempt.conflicts
    cases hn : a.outcome with
    | error e => rfl
    | ok n =>
        obtain ⟨hready, fresh, lines, base, hfound, hordered, -, hstored⟩ :=
          hback a.module (mem_written.mpr ⟨a, ha, rfl, n, hn⟩)
        exact (hcourse₂.unchanged hready ha hn hfound hordered hstored).1

/-- Two modules that share a function; the builtin one has the root type as well. -/
def sharedSnapshot : Snapshot where
  builtinModules := ["sys", "builtins"]
  wellKnown := ⟨"o", "o", "o", "o", "o", "o", "o"⟩
  modules := [("builtins", { members := [("f", "f"), ("object", "o")] }),
    ("sys", { members := [("f", "f")] })]
  objects := [("f", { category := .builtinFunction }),
    ("o", { category := .plainClass, module := some "builtins", name := some "object" })]

theorem sharedSnapshot_ordered : sharedSnapshot.Ordered := by decide +kernel

/-- A baseline that knows more of one member and takes another for a function, and a file that is no
record. -/
def richWorld : World where
  disk := ⟨[(["old"], .directory), (["old", "sys.idb"], .file [1]),
    (["old", "builtins.idb"], .file (Archive.encode
      ⟨none, [("f", .function { doc := some "f()" }), ("object", .function {})]⟩))], []⟩

def sharedRun (out : Store) (baseline : Store) (w : World) : Except Failure Generated × World :=
  (generate host (Extraction.provider sharedSnapshot {}) {} out (some baseline)).run w

/-- Whether the sizes of a module's fresh record, and of the one in a file, fit. -/
def sizesFit (s : Snapshot) (c : Settings) (file : Option (List UInt8)) (module : String) : Bool :=
  (match (Extraction.provider s c).extracted c module with
    | .ok (r, _) => r.toData.largest < 2 ^ 32
    | .error _ => true) &&
    match file.map Archive.decode with
    | some (.ok r) => r.toData.largest < 2 ^ 32
    | _ => true

theorem regeneration_fixpoint_shared :
    ∃ w₁' w₂', sharedRun ⟨"new"⟩ ⟨"old"⟩ richWorld = (.ok ⟨["builtins", "sys"], [], 1⟩, w₁') ∧
      sharedRun ⟨"again"⟩ ⟨"new"⟩ w₁' = (.ok ⟨["builtins", "sys"], [], 0⟩, w₂') ∧
      ∀ module ∈ ["builtins", "sys"], ∃ bytes,
        w₁'.disk.read (Store.pathFor ⟨"new"⟩ module) = .ok bytes ∧
        w₂'.disk.read (Store.pathFor ⟨"again"⟩ module) = .ok bytes := by
  have hrun₁ : (sharedRun ⟨"new"⟩ ⟨"old"⟩ richWorld).1 = .ok ⟨["builtins", "sys"], [], 1⟩ := by
    decide +kernel
  have hrun₂ : (sharedRun ⟨"again"⟩ ⟨"new"⟩ (sharedRun ⟨"new"⟩ ⟨"old"⟩ richWorld).2).1 =
      .ok ⟨["builtins", "sys"], [], 0⟩ := by decide +kernel
  obtain ⟨⟨r₁, w₁'⟩, h₁⟩ : ∃ last, sharedRun ⟨"new"⟩ ⟨"old"⟩ richWorld = last := ⟨_, rfl⟩
  rw [h₁] at hrun₁ hrun₂
  obtain ⟨⟨r₂, w₂'⟩, h₂⟩ : ∃ last, sharedRun ⟨"again"⟩ ⟨"new"⟩ w₁' = last := ⟨_, rfl⟩
  rw [h₂] at hrun₂
  subst hrun₁ hrun₂
  have hfit : ∀ name ∈ ["builtins", "sys", "builtins"], sizesFit sharedSnapshot {}
      (richWorld.disk.file? (Store.placeOn ⟨"old"⟩ richWorld.disk name)) name = true := by
    decide +kernel
  have hall : ∀ name ∈ ["builtins", "sys", "builtins"], Path.IsComponent name := by decide +kernel
  refine ⟨w₁', w₂', h₁, h₂, ?_⟩
  refine (regeneration_fixpoint sharedSnapshot_ordered (by decide) hall ?_ ?_ h₁ rfl h₂ rfl).1
  · intro name hname r lines hr
    have hsize := (Bool.and_eq_true _ _ ▸ hfit name hname).1
    rw [hr] at hsize
    rw [decide_eq_true_eq] at hsize
    exact hsize
  · intro name hname store hstore bytes r hfile hdecode
    obtain rfl := Option.some.inj hstore
    have hsize := (Bool.and_eq_true _ _ ▸ hfit name hname).2
    rw [hfile, Option.map_some, hdecode] at hsize
    rw [decide_eq_true_eq] at hsize
    exact hsize

end Generation
end CompletionDb
