import CompletionDb.Inspection
import CompletionDb.Proofs.ReaderLimit
import CompletionDb.Proofs.RegenerationFixpoint

/-!
# Reading what a run has written

Each module that a run reports as written has a file with the merged record. Whether that file can
be read depends on one number, the levels of the payload. Within the limit of the reader, loading
the module and looking into its file both give the merged record; beyond it both fail, although the
run has answered.

The settings bound the levels, three for each type that may be expanded inside another. So a run
with a small depth is safe. The check of the settings accepts any depth but zero, and a long enough
chain of classes then gives a file that nobody can read: `chainSnapshot` is such a chain.
-/
namespace CompletionDb

namespace Store
open Disk

/-! ## Store files -/

theorem stem?_pathFor (s : Store) {module : String} (h : Path.IsComponent module) :
    Path.stem? (s.pathFor module) = some module := by
  rw [Path.stem?, name?_pathFor s h.noSlash, Option.map_some, stemOfName_fileName h.nonempty]

theorem dump_of_read {s : Store} {module : String} {w : World} {bytes : List UInt8}
    (hm : Path.IsComponent module) (h : w.disk.read (s.pathFor module) = .ok bytes) :
    (Inspection.dump host (s.pathFor module)).run w = (match Archive.decode bytes with
      | .ok r => .ok ⟨module, r⟩
      | .error e => .error (Store.Error.codec module e).failure, w) := by
  have hread : (host.read (s.pathFor module)).run w = (.ok bytes, w) := by
    rw [← h]
    rfl
  unfold Inspection.dump
  rw [run_bind_of hread, stem?_pathFor s hm, Option.getD_some]
  cases hdecode : Archive.decode bytes with
  | ok r =>
      dsimp only
      rw [hdecode]
      rfl
  | error e =>
      dsimp only
      rw [hdecode]
      rfl

/-- Loading a module and looking into its file give this record. -/
structure ReadsBack (s : Store) (module : String) (r : Record) (w : World) : Prop where
  load : (s.load host module).run w = (.ok (some r), w)
  dump : (Inspection.dump host (s.pathFor module)).run w = (.ok ⟨module, r⟩, w)

/-- Loading a module and looking into its file fail, because the file holds no record. -/
structure Refuses (s : Store) (module : String) (w : World) : Prop where
  load : (s.load host module).run w = (.error (.codec module .malformed), w)
  dump : (Inspection.dump host (s.pathFor module)).run w =
    (.error (Store.Error.codec module .malformed).failure, w)

section
variable {s : Store} {module : String} {r : Record} {w : World}

theorem readsBack_of_levels_le (hm : Path.IsComponent module)
    (h : w.disk.read (s.pathFor module) = .ok (Archive.encode r)) (ho : r.Ordered) (hs : r.Sized)
    (hl : r.toData.levels ≤ Pack.maxDepth) : s.ReadsBack module r w := by
  have hdecode := Archive.decode_encode_of_levels_le ho hs hl
  constructor
  · rw [load_of_read h, hdecode]
  · rw [dump_of_read hm h, hdecode]

theorem refuses_of_lt_levels (hm : Path.IsComponent module)
    (h : w.disk.read (s.pathFor module) = .ok (Archive.encode r)) (hs : r.Sized)
    (hl : Pack.maxDepth < r.toData.levels) : s.Refuses module w := by
  have hdecode := Archive.decode_encode_of_lt_levels hs hl
  constructor
  · rw [load_of_read h, hdecode]
  · rw [dump_of_read hm h, hdecode]

end
end Store

/-! ## Runs -/

namespace Generation
open Disk

/-- A module that is written has the file of its merged record. -/
theorem read_of_written {p : Provider} {c : Settings} {baseline : Option Store} {out : Store}
    {w w' : World} {g : Generated}
    (hnames : ∀ name ∈ c.builtinModule :: p.builtinModules, Path.IsComponent name)
    (h : (generate host p c out baseline).run w = (.ok g, w')) {module : String}
    (hmem : module ∈ g.written) :
    Path.IsComponent module ∧ ∃ fresh lines base, p.extracted c module = .ok (fresh, lines) ∧
      ((∀ store ∈ baseline, store.Ready w.disk) →
        base = baseline.bind (·.stored? w.disk module)) ∧
      w'.disk.read (out.pathFor module) =
        .ok (Archive.encode (Merge.record c.placeholder base fresh)) := by
  rcases generate_eq hnames h with ⟨attempts, hcourse, hreported⟩
  rw [hreported.written_eq] at hmem
  rcases mem_written.mp hmem with ⟨a, ha, rfl, n, hn⟩
  rcases hcourse.read_found ha hn with ⟨fresh, lines, hfound, -, hread⟩
  exact ⟨hcourse.modules a ha, fresh, lines, _, hfound, hcourse.previous ha, hread⟩

/-- The files that a run has written are read back up to the depth of the reader and refused beyond
it. A depth of 338 in the settings keeps every record within. -/
theorem generate_read_back {s : Snapshot} {c : Settings} {baseline : Option Store} {out : Store}
    {w w' : World} {g : Generated} (hs : s.Ordered)
    (hnames : ∀ name ∈ c.builtinModule :: s.builtinModules, Path.IsComponent name)
    (h : (generate host (Extraction.provider s c) c out baseline).run w = (.ok g, w')) :
    ∀ module ∈ g.written, ∃ fresh lines base r,
      (Extraction.provider s c).extracted c module = .ok (fresh, lines) ∧
      ((∀ store ∈ baseline, store.Ready w.disk) →
        base = baseline.bind (·.stored? w.disk module)) ∧
      r = Merge.record c.placeholder base fresh ∧
      w'.disk.read (out.pathFor module) = .ok (Archive.encode r) ∧
      r.toData.levels ≤ 3 * c.maxTypeDepth + 9 ∧
      (r.Sized → if r.toData.levels ≤ 1023 then out.ReadsBack module r w'
        else out.Refuses module w') := by
  intro module hmem
  rcases read_of_written hnames h hmem with ⟨hm, fresh, lines, base, hfound, hbase, hread⟩
  have hfresh := regular_of_extracted hs hfound
  refine ⟨fresh, lines, base, _, hfound, hbase, rfl, hread, ?_, ?_⟩
  · exact Record.levels_toData_le (Merge.within_record c.placeholder hfresh.within base)
  · intro hsized
    split_ifs with hl
    · exact Store.readsBack_of_levels_le hm hread
        (Merge.ordered_record c.placeholder hfresh.ordered base) hsized hl
    · exact Store.refuses_of_lt_levels hm hread hsized (not_le.mp hl)

/-- Whether the sizes of the record that is merged for a module fit. -/
def mergedFits (s : Snapshot) (c : Settings) (base : Option Record) (module : String) : Bool :=
  match (Extraction.provider s c).extracted c module with
  | .ok (fresh, _) => (Merge.record c.placeholder base fresh).toData.largest < 2 ^ 32
  | .error _ => true

theorem generate_read_back_shared :
    ∃ w', sharedRun ⟨"new"⟩ ⟨"old"⟩ richWorld = (.ok ⟨["builtins", "sys"], [], 1⟩, w') ∧
      ∀ module ∈ ["builtins", "sys"], ∃ r, Store.ReadsBack ⟨"new"⟩ module r w' := by
  have hrun : (sharedRun ⟨"new"⟩ ⟨"old"⟩ richWorld).1 = .ok ⟨["builtins", "sys"], [], 1⟩ := by
    decide +kernel
  obtain ⟨⟨g, w'⟩, h⟩ : ∃ last, sharedRun ⟨"new"⟩ ⟨"old"⟩ richWorld = last := ⟨_, rfl⟩
  rw [h] at hrun
  subst hrun
  have hall : ∀ name ∈ ["builtins", "sys", "builtins"], Path.IsComponent name := by decide +kernel
  have hready : Store.Ready ⟨"old"⟩ richWorld.disk := .inl (by decide +kernel)
  have hfit : ∀ module ∈ ["builtins", "sys"], mergedFits sharedSnapshot {}
      ((some ⟨"old"⟩ : Option Store).bind (·.stored? richWorld.disk module)) module = true := by
    decide +kernel
  have hback := generate_read_back sharedSnapshot_ordered hall h
  refine ⟨w', h, ?_⟩
  intro module hmem
  rcases hback module hmem with ⟨fresh, lines, base, r, hfound, hbase, hr, -, hlevels, hlimit⟩
  have hsized := hfit module hmem
  rw [← hbase (by intro store hstore; cases hstore; exact hready)] at hsized
  simp only [mergedFits, hfound, decide_eq_true_eq] at hsized
  have hle : r.toData.levels ≤ 1023 := hlevels.trans (by decide)
  rw [hr] at hlimit hle
  have hread := hlimit hsized
  rw [if_pos hle] at hread
  exact ⟨_, hread⟩

section
open Extraction Data

/-! ## A chain of classes -/

/-- The name of a class in a chain, one letter longer than that of the class before. -/
def link (i : ℕ) : String := String.ofList (List.replicate (i + 1) 'c')

/-- A class with the class before it as a member. The first one has itself. -/
def linkObject (i : ℕ) : Object where
  category := .plainClass
  module := some "m"
  name := some (link i)
  members := [("n", link (i - 1))]

def linkInfo (hidden : Bool) (i : ℕ) : TypeInfo where
  mro := [⟨"m", link i⟩]
  hidden := hidden
  builtin := some true

/-- A builtin module with the last class of a chain. -/
def chainSnapshot (n : ℕ) : Snapshot where
  wellKnown := ⟨link 0, link 0, link 0, link 0, link 0, link 0, link 0⟩
  modules := [("builtins", { members := [("top", link n)] })]
  objects := (List.range (n + 1)).map fun i => (link i, linkObject i)

theorem link_inj {i j : ℕ} (h : link i = link j) : i = j := by
  have hlength := congrArg List.length (String.ofList_injective h)
  simpa using hlength

theorem largest_link (i : ℕ) : (Data.text (link i)).largest = i + 1 := by
  have hlen : ∀ k, String.utf8Len (List.replicate k 'c') = k := by
    intro k
    induction k with
    | zero => rfl
    | succ k ih =>
        rw [List.replicate_succ, String.utf8Len_cons, ih]
        rfl
  have hsize : (Pack.utf8 (link i)).length = (link i).utf8ByteSize := by
    rw [Pack.utf8, Array.length_toList]
    rfl
  rw [largest, hsize, link, String.utf8ByteSize_ofList, hlen]

theorem object?_link {n i : ℕ} (hi : i ≤ n) :
    (chainSnapshot n).object? (link i) = some (linkObject i) := by
  have hlookup : ∀ indices : List ℕ, i ∈ indices →
      (indices.map fun i => (link i, linkObject i)).lookup (link i) = some (linkObject i) := by
    intro indices
    induction indices with
    | nil => exact nofun
    | cons j indices ih =>
        intro hmem
        rw [List.map_cons, Table.lookup_cons]
        split_ifs with hij
        · rw [link_inj hij]
        · exact ih (List.mem_of_ne_of_mem (fun h => hij (congrArg link h)) hmem)
  exact hlookup _ (List.mem_range.mpr (Nat.lt_succ_of_le hi))

theorem ordered_chainSnapshot (n : ℕ) : (chainSnapshot n).Ordered := by
  constructor
  · rw [chainSnapshot, List.forall_mem_singleton]
    exact List.pairwise_singleton _ _
  · rw [chainSnapshot, List.forall_mem_map]
    intro i _
    exact List.pairwise_singleton _ _

/-- Nothing is wrong with a chain: every name in it is that of a class. -/
theorem check_chainSnapshot (n : ℕ) : (chainSnapshot n).check = .ok (chainSnapshot n) := by
  have hdangling : ∀ referrer, ∀ i ≤ n, (chainSnapshot n).danglingFrom referrer [link i] = [] := by
    intro referrer i hi
    simp [Snapshot.danglingFrom, Snapshot.isListed, object?_link hi]
  have hfaults : (chainSnapshot n).faults = [] := by
    unfold Snapshot.faults
    rw [List.append_eq_nil_iff, List.append_eq_nil_iff]
    refine ⟨⟨?_, ?_⟩, ?_⟩
    · have hnamed : ∀ x ∈ (chainSnapshot n).wellKnown.named, x.2 = link 0 := by
        simp [chainSnapshot, WellKnown.named]
      rw [List.flatMap_eq_nil_iff]
      intro x hx
      obtain ⟨field, id⟩ := x
      rw [show id = link 0 from hnamed _ hx]
      exact hdangling _ 0 (Nat.zero_le n)
    · have hmember := hdangling (.member "builtins" "top") n (le_refl n)
      exact List.append_eq_nil_iff.mpr ⟨List.append_eq_nil_iff.mpr ⟨hmember, rfl⟩, rfl⟩
    · rw [List.flatMap_eq_nil_iff, chainSnapshot, List.forall_mem_map]
      intro i hi
      have hle : i - 1 ≤ n := by
        rw [List.mem_range] at hi
        omega
      exact hdangling (.object (link i)) (i - 1) hle
  rw [Snapshot.check, hfaults]

section
variable {n i : ℕ} {c : Settings} {r : Resolver} {room : ℕ} {chain : List TypeName} {hidden : Bool}

theorem typeName_link (hi : i ≤ n) : (chainSnapshot n).typeName (link i) = ⟨"m", link i⟩ := by
  rw [Snapshot.typeName, object?_link hi]
  rfl

theorem typeInfo_link (hi : i ≤ n) :
    typeInfo (chainSnapshot n) hidden (link i) = linkInfo hidden i := by
  have hmro : (chainSnapshot n).nativeMro (link i) = some [link i] := by
    rw [Snapshot.nativeMro, object?_link hi]
    rfl
  simp [typeInfo, linkInfo, Snapshot.mro, Snapshot.bases, Snapshot.doc, hmro, object?_link hi,
    typeName_link hi, linkObject, docText]

theorem entryIn_link_of_mem (hi : i ≤ n) (h : ⟨"m", link i⟩ ∈ chain) :
    entryIn (chainSnapshot n) c r room chain hidden (link i) = .typeRef ⟨"m", link i⟩ := by
  have hcategory : (chainSnapshot n).category (link i) = .plainClass := by
    rw [Snapshot.category, object?_link hi]
    rfl
  unfold entryIn
  rw [hcategory, typeName_link hi, if_neg (by decide), if_pos (by decide), if_pos h]

theorem entryIn_link_succ (hi : i ≤ n) (h : ⟨"m", link i⟩ ∉ chain) :
    entryIn (chainSnapshot n) c r (room + 1) chain hidden (link i) =
      .type (linkInfo hidden i) [("n", entryIn (chainSnapshot n) c r room (⟨"m", link i⟩ :: chain)
        false (link (i - 1)))] := by
  have hcategory : (chainSnapshot n).category (link i) = .plainClass := by
    rw [Snapshot.category, object?_link hi]
    rfl
  have hmembers : (chainSnapshot n).members (link i) = [("n", link (i - 1))] := by
    rw [Snapshot.members, object?_link hi]
    rfl
  have hroot : isRootConstructor (chainSnapshot n) (link i) "n" = false := by
    simp [isRootConstructor, constructorName]
  rw [entryIn, hcategory, typeName_link hi, if_neg (by decide), if_pos (by decide), if_neg h]
  simp [memberEntries, hmembers, hroot, typeInfo_link hi]

theorem largest_linkName_lt {i : ℕ} (hi : i + 1 < 2 ^ 32) :
    (TypeName.toData ⟨"m", link i⟩).largest < 2 ^ 32 := by
  have hmodule : (Data.text "m").largest < 2 ^ 32 := by decide +kernel
  have hname := largest_link i
  simp only [TypeName.toData, largest, largestList, List.length_cons, List.length_nil]
    at hmodule hname ⊢
  omega

theorem sized_linkType {i : ℕ} (hi : i + 1 < 2 ^ 32) {e : Entry} (he : e.Sized) :
    (Entry.type (linkInfo hidden i) [("n", e)]).Sized := by
  have hname := largest_linkName_lt hi
  have hkey : (Data.text "n").largest < 2 ^ 32 := by decide +kernel
  rw [Entry.Sized, Entry.toData, largest_tagged_lt, TypeInfo.largest_fields_lt,
    Entry.sizedTable_iff, List.forall_mem_singleton]
  have hdoc : ∀ doc, (linkInfo hidden i).doc = some doc → (Data.text doc).largest < 2 ^ 32 := by
    intro doc h
    cases h
  refine ⟨⟨?_, by simp [linkInfo, largest, largestList], hdoc⟩, by simp, hkey, he⟩
  simp only [linkInfo, List.map_cons, List.map_nil, largest, largestList, List.length_singleton]
  omega

theorem sized_linkRef {i : ℕ} (hi : i + 1 < 2 ^ 32) : (Entry.typeRef ⟨"m", link i⟩).Sized := by
  rw [Entry.Sized, Entry.toData, largest_tagged_lt,
    largest_structure_lt ["type_name"] (List.Sublist.refl _) (by decide +kernel)]
  rw [List.forall_mem_singleton]
  exact largest_linkName_lt hi

/-- Every class of a chain is expanded inside the one after it, and each expansion takes three
levels. -/
theorem entryIn_link (hidden : Bool) (hi : i ≤ n) (hn : n + 1 < 2 ^ 32) (hroom : i < room)
    (hchain : ∀ j ≤ i, ⟨"m", link j⟩ ∉ chain) :
    (entryIn (chainSnapshot n) c r room chain hidden (link i)).Sized ∧
      3 * i + 2 < (entryIn (chainSnapshot n) c r room chain hidden (link i)).toData.levels := by
  induction i generalizing room chain hidden with
  | zero =>
      obtain ⟨room, rfl⟩ := Nat.exists_eq_succ_of_ne_zero (Nat.ne_of_gt hroom)
      rw [entryIn_link_succ hi (hchain 0 (le_refl 0)), Nat.zero_sub,
        entryIn_link_of_mem hi List.mem_cons_self]
      constructor
      · exact sized_linkType (by omega) (sized_linkRef (by omega))
      · have hlevels := Entry.levels_lt_type (linkInfo hidden 0)
          (List.mem_singleton_self ("n", Entry.typeRef ⟨"m", link 0⟩))
        omega
  | succ i ih =>
      obtain ⟨room, rfl⟩ := Nat.exists_eq_succ_of_ne_zero (Nat.ne_of_gt (Nat.zero_lt_of_lt hroom))
      have hnext : ∀ j ≤ i, (⟨"m", link j⟩ : TypeName) ∉ ⟨"m", link (i + 1)⟩ :: chain := by
        intro j hj
        rw [List.mem_cons, not_or]
        refine ⟨?_, hchain j (Nat.le_succ_of_le hj)⟩
        intro heq
        have hji := link_inj (TypeName.mk.inj heq).2
        omega
      rw [entryIn_link_succ hi (hchain (i + 1) (le_refl _)), Nat.add_sub_cancel]
      generalize hinner : entryIn (chainSnapshot n) c r room (⟨"m", link (i + 1)⟩ :: chain) false
        (link i) = inner
      have hstep := ih false (Nat.le_of_succ_le hi) (Nat.lt_of_succ_lt_succ hroom) hnext
      rw [hinner] at hstep
      constructor
      · exact sized_linkType (by omega) hstep.1
      · have hlevels := Entry.levels_lt_type (linkInfo hidden (i + 1))
          (List.mem_singleton_self ("n", inner))
        dsimp only at hlevels
        omega

end

/-! ## A run over a chain -/

theorem logAll_run (lines : List LogLine) (w : World) :
    (host.logAll lines).run w = ((), { w with log := lines.reverse ++ w.log }) := by
  induction lines generalizing w with
  | nil => rfl
  | cons line lines ih =>
      have hstep : (host.logAll (line :: lines)).run w =
          (host.logAll lines).run { w with log := line :: w.log } := rfl
      rw [hstep, ih, List.reverse_cons, List.append_assoc]
      rfl

/-- Saving in an empty directory succeeds whatever the record. -/
theorem save_in_empty (r : Record) (log : List LogLine) :
    (Store.save host ⟨""⟩ "builtins" r).run { log := log } = (.ok "builtins.idb",
      { disk := ⟨[(["builtins.idb"], .file (Archive.encode r))], []⟩, log := log }) := by
  rfl

theorem writeMerged_in_empty (placeholder : TypeName) (fresh : Record) (log : List LogLine) :
    ∃ w', (writeMerged host ⟨⟨""⟩, none, placeholder⟩ "builtins" fresh).run { log := log } =
      (.ok 0, w') := by
  have hprevious : (loadPrevious host ⟨⟨""⟩, none, placeholder⟩ "builtins").run { log := log } =
      (none, { log := log }) := rfl
  unfold writeMerged
  rw [run_bind_of hprevious]
  dsimp only
  rw [run_bind_of (logAll_run _ _), run_bind_of (save_in_empty _ _)]
  exact ⟨_, rfl⟩

theorem generate_in_empty {p : Provider} {c : Settings} (hbuiltin : c.builtinModule = "builtins")
    (hothers : p.builtinModules = []) {fresh : Record} {lines : List LogLine}
    (hfound : p.extractBuiltin "builtins" = .ok (fresh, lines)) :
    ∃ w', (generate host p c ⟨""⟩ none).run {} = (.ok ⟨["builtins"], [], 0⟩, w') := by
  rcases writeMerged_in_empty c.placeholder fresh (lines.reverse ++ []) with ⟨w₁, hmerged⟩
  have hextracted : (writeExtracted host ⟨⟨""⟩, none, c.placeholder⟩ "builtins"
      (.ok (fresh, lines))).run {} = (.ok 0, w₁) := by
    unfold writeExtracted
    dsimp only
    rw [run_bind_of (logAll_run lines {}), run_bind_of hmerged]
    rfl
  unfold generate
  rw [hbuiltin, hothers, hfound, run_bind_of hextracted]
  exact ⟨_, rfl⟩

theorem entry_link {n i : ℕ} {c : Settings} (hidden : Bool) (hi : i ≤ n) (hn : n + 1 < 2 ^ 32)
    (hdepth : n < c.maxTypeDepth) :
    (entry (chainSnapshot n) c hidden (link i)).Sized ∧
      3 * i + 2 < (entry (chainSnapshot n) c hidden (link i)).toData.levels :=
  entryIn_link hidden hi hn (lt_of_le_of_lt hi hdepth) fun _ _ => List.not_mem_nil

/-- Names of the members of the builtin module of a chain. -/
def chainNames : List String :=
  ["top", "function", "builtin_function", "builtin_method_descriptor", "generator", "NoneType",
    "ellipsis"]

theorem extractBuiltin_chain (n : ℕ) (c : Settings) :
    ∃ lines, (provider (chainSnapshot n) c).extractBuiltin "builtins" =
      .ok (withHidden (chainSnapshot n) c
        (recordOf (chainSnapshot n) c { members := [("top", link n)] }), lines) := by
  have hmodule : (chainSnapshot n).modules.find? "builtins" =
      some { members := [("top", link n)] } := by
    rw [chainSnapshot, Table.find?_cons, if_pos rfl]
  refine ⟨builtinLog (chainSnapshot n) c "builtins", ?_⟩
  simp only [provider, builtinRecord?, record?, hmodule, Option.map_some, found]

/-- The invariant of the members of a chain's builtin module. -/
structure ChainMembers (top : Entry) (members : Table Entry) : Prop where
  ascending : members.Ascending
  named : ∀ m ∈ members, m.1 ∈ chainNames
  sized : ∀ m ∈ members, m.2.Sized
  top : ("top", top) ∈ members

theorem chainMembers_withHidden {n : ℕ} {c : Settings} (hdepth : n < c.maxTypeDepth)
    (hn : n + 1 < 2 ^ 32) :
    ChainMembers (entry (chainSnapshot n) c false (link n)) (withHidden (chainSnapshot n) c
      (recordOf (chainSnapshot n) c { members := [("top", link n)] })).members := by
  have hnamed : ∀ p ∈ (chainSnapshot n).wellKnown.hiddenEntries,
      p.1 ∈ chainNames ∧ p.1 ≠ "top" ∧ p.2 = link 0 := by
    simp [chainSnapshot, WellKnown.hiddenEntries, chainNames]
  apply withHidden_induction
  · constructor
    · exact List.pairwise_singleton _ _
    · intro m hm
      rw [List.mem_singleton.mp hm]
      exact List.mem_cons_self
    · intro m hm
      rw [List.mem_singleton.mp hm]
      exact (entry_link false (le_refl n) hn hdepth).1
    · exact List.mem_singleton_self _
  · intro p hp members hmembers
    rcases hnamed p hp with ⟨hname, htop, hid⟩
    constructor
    · exact Table.ascending_insert hmembers.ascending
    · intro m hm
      rcases Table.mem_insert hm with rfl | hm
      · exact hname
      · exact hmembers.named m hm
    · intro m hm
      rcases Table.mem_insert hm with rfl | hm
      · rw [hid]
        exact (entry_link true (Nat.zero_le n) hn hdepth).1
      · exact hmembers.sized m hm
    · exact Table.mem_insert_of_ne hmembers.top htop.symm

theorem sized_of_chainMembers {r : Record} {top : Entry} (hdoc : r.doc = none)
    (h : ChainMembers top r.members) : r.Sized := by
  have hnames : ∀ name ∈ chainNames, (Data.text name).largest < 2 ^ 32 := by decide +kernel
  have hlength : r.members.length ≤ chainNames.length := by
    have hnodup : r.members.keys.Nodup := List.Pairwise.imp (fun hlt => ne_of_lt hlt) h.ascending
    have hsub : r.members.keys ⊆ chainNames := by
      intro name hname
      rcases List.mem_map.mp hname with ⟨m, hm, rfl⟩
      exact h.named m hm
    have hle := (List.subperm_of_subset hnodup hsub).length_le
    rwa [Table.keys, List.length_map] at hle
  rw [Record.sized_iff, Entry.sizedTable_iff]
  refine ⟨by simp [hdoc], lt_of_le_of_lt hlength (by decide), ?_⟩
  intro m hm
  exact ⟨hnames m.1 (h.named m hm), h.sized m hm⟩

/-- A long chain that is expanded to its end is written, and cannot be read. -/
theorem generate_chain {n : ℕ} {c : Settings} (hbuiltin : c.builtinModule = "builtins")
    (hdepth : n < c.maxTypeDepth) (hdeep : 340 ≤ n) (hn : n + 1 < 2 ^ 32) :
    ∃ w', (generate host (provider (chainSnapshot n) c) c ⟨""⟩ none).run {} =
        (.ok ⟨["builtins"], [], 0⟩, w') ∧ Store.Refuses ⟨""⟩ "builtins" w' := by
  rcases extractBuiltin_chain n c with ⟨lines, hfound⟩
  rcases generate_in_empty hbuiltin rfl hfound with ⟨w', hrun⟩
  have hnames : ∀ name ∈ c.builtinModule :: (chainSnapshot n).builtinModules,
      Path.IsComponent name := by
    rw [hbuiltin]
    intro name hname
    rw [List.mem_singleton.mp hname]
    exact ⟨by decide, by decide⟩
  rcases read_of_written hnames hrun List.mem_cons_self with
    ⟨hm, fresh, logged, base, hextracted, hbase, hread⟩
  rw [hbase nofun, Option.bind_none] at hread
  rw [Provider.extracted, if_pos hbuiltin.symm, hfound] at hextracted
  cases hextracted
  have hmembers := chainMembers_withHidden hdepth hn
  have htop := (entry_link false (le_refl n) hn hdepth).2
  have hrecord := Record.levels_lt hmembers.top
  refine ⟨w', hrun, Store.refuses_of_lt_levels hm hread (sized_of_chainMembers rfl hmembers) ?_⟩
  dsimp only [Merge.record, Pack.maxDepth] at hrecord ⊢
  omega

/-- A chain of 400 classes, in a snapshot and with settings that pass their checks. -/
theorem chain_written_and_refused :
    (chainSnapshot 399).check = .ok (chainSnapshot 399) ∧ (chainSnapshot 399).Ordered ∧
      Settings.check { maxTypeDepth := 400 } = .ok { maxTypeDepth := 400 } ∧
      ∃ w', (generate host (provider (chainSnapshot 399) { maxTypeDepth := 400 })
          { maxTypeDepth := 400 } ⟨""⟩ none).run {} = (.ok ⟨["builtins"], [], 0⟩, w') ∧
        Store.Refuses ⟨""⟩ "builtins" w' :=
  ⟨check_chainSnapshot 399, ordered_chainSnapshot 399, rfl,
    generate_chain rfl (by decide) (by decide) (by decide)⟩

end
end Generation
end CompletionDb
