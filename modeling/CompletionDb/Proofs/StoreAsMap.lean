import Mathlib.Data.List.Nodup
import Mathlib.Data.List.Sort
import CompletionDb.Proofs.ArchiveRoundTrip
import CompletionDb.Proofs.StoreDirectory

/-!
# A store as a map

Records that were saved can be loaded again, each under its own name and the last one of those that
were saved under one name; a name is in the store if something was saved under it; and the names in
the store are listed in order. This holds over any row of saves that begins with an empty place.

A file system sets limits to this. A name that is too long for a file is refused, also when it is
asked for. The empty path stands for the working directory when a file is read or written in it, but
not when it is listed. A path that leads through a file is refused, as long as nothing could be
saved there. And while a missing directory is made, two dots behind another missing one could put a
directory among the files; `Fresh` asks that two dots follow only what is there.
-/
namespace CompletionDb

namespace Disk

/-! ## Listing a directory -/

/-- A directory holds files only, and no place in it is listed twice. -/
structure Plain (dir : Place) (d : Disk) : Prop where
  files : ∀ name, d.node? (dir ++ [name]) ≠ some .directory
  single : ∀ name, (d.nodes.map Prod.fst).count (dir ++ [name]) ≤ 1

section
variable {d : Disk} {dir p : Place} {name : String}

@[simp] theorem node?_append (d : Disk) (dir : Place) (name : String) :
    d.node? (dir ++ [name]) = d.nodes.lookup (dir ++ [name]) := by
  simp [node?]

theorem count_erase_le (d : Disk) (p q : Place) :
    ((d.erase p).nodes.map Prod.fst).count q ≤ (d.nodes.map Prod.fst).count q := by
  apply List.Sublist.count_le
  apply List.Sublist.map
  exact List.filter_sublist

@[simp] theorem count_erase_self (d : Disk) (p : Place) :
    ((d.erase p).nodes.map Prod.fst).count p = 0 := by
  rw [List.count_eq_zero]
  intro hmem
  rcases List.mem_map.mp hmem with ⟨node, hnode, rfl⟩
  simpa using (List.mem_filter.mp hnode).2

theorem Plain.erase (h : d.Plain dir) (hp : p ≠ []) : (d.erase p).Plain dir where
  files name := by
    rw [node?_erase hp]
    split_ifs
    · simp
    · exact h.files name
  single name := (count_erase_le d p _).trans (h.single name)

theorem Plain.put (h : d.Plain dir) (hp : p ≠ []) {n : Node}
    (hn : ∀ name, p = dir ++ [name] → n ≠ .directory) : (d.put p n).Plain dir where
  files name := by
    rw [node?_put hp]
    split_ifs with hname
    · simpa using hn name hname.symm
    · exact h.files name
  single name := by
    rw [Disk.put, List.map_cons, List.count_cons]
    by_cases hname : p = dir ++ [name]
    · rw [hname, count_erase_self]
      simp
    · simpa [hname] using (count_erase_le d p _).trans (h.single name)

theorem lookup_of_mem {nodes : List (Place × Node)} {n : Node}
    (hsingle : (nodes.map Prod.fst).count p ≤ 1) (h : (p, n) ∈ nodes) :
    nodes.lookup p = some n := by
  rcases List.append_of_mem h with ⟨before, after, rfl⟩
  refine List.lookup_eq_some_iff.mpr ⟨before, after, rfl, ?_⟩
  intro other hother
  have hcount : (before.map Prod.fst).count p = 0 := by
    simp only [List.map_append, List.map_cons, List.count_append, List.count_cons_self] at hsingle
    omega
  rw [List.count_eq_zero] at hcount
  rw [bne_iff_ne]
  rintro rfl
  exact hcount (List.mem_map_of_mem hother)

theorem fileNameIn_eq_some {node : Place × Node} :
    fileNameIn dir node = some name ↔ ∃ bytes, node = (dir ++ [name], .file bytes) := by
  rcases node with ⟨place, n⟩
  cases n with
  | directory => simp [fileNameIn]
  | file bytes =>
      simp only [fileNameIn, Prod.mk.injEq, Node.file.injEq, exists_eq_right']
      constructor
      · intro h
        split_ifs at h with hdir
        rcases List.getLast?_eq_some_iff.mp h with ⟨above, rfl⟩
        rw [← hdir, List.dropLast_concat]
      · rintro rfl
        rw [if_pos List.dropLast_concat, List.getLast?_concat]

theorem fileNames_of_find {path : Path} (hfind : d.find path = .ok (dir, .directory)) :
    d.fileNames path = d.nodes.filterMap (fileNameIn dir) := by
  unfold fileNames
  rw [hfind]

theorem Plain.mem_fileNames (h : d.Plain dir) {path : Path}
    (hfind : d.find path = .ok (dir, .directory)) :
    name ∈ d.fileNames path ↔ ∃ bytes, d.file? (dir ++ [name]) = some bytes := by
  rw [fileNames_of_find hfind, List.mem_filterMap]
  constructor
  · rintro ⟨node, hmem, hname⟩
    rcases fileNameIn_eq_some.mp hname with ⟨bytes, rfl⟩
    refine ⟨bytes, file?_eq_some.mpr ?_⟩
    simpa using lookup_of_mem (h.single name) hmem
  · rintro ⟨bytes, hfile⟩
    rw [file?_eq_some, node?_append] at hfile
    rcases List.lookup_eq_some_iff.mp hfile with ⟨before, after, hnodes, -⟩
    refine ⟨_, ?_, fileNameIn_eq_some.mpr ⟨bytes, rfl⟩⟩
    rw [hnodes]
    simp

theorem Plain.nodup_fileNames (h : d.Plain dir) {path : Path}
    (hfind : d.find path = .ok (dir, .directory)) : (d.fileNames path).Nodup := by
  rw [fileNames_of_find hfind, List.nodup_iff_count_le_one]
  intro name
  refine le_trans ?_ (h.single name)
  rw [List.count, List.count, List.countP_filterMap, List.countP_map]
  apply List.countP_mono_left
  intro node _ hname
  cases hin : fileNameIn dir node with
  | none => simp [hin] at hname
  | some other =>
      obtain rfl : other = name := by simpa [hin] using hname
      rcases fileNameIn_eq_some.mp hin with ⟨bytes, rfl⟩
      simp

end

/-! ## What a save keeps -/

/-- What stays true when a file is put in place or removed. -/
structure Robust (kept : Disk → Prop) : Prop where
  put : ∀ d p bytes, p ≠ [] → d.node? p ≠ some .directory → kept d → kept (d.put p (.file bytes))
  erase : ∀ d p, p ≠ [] → d.node? p ≠ some .directory → kept d → kept (d.erase p)

section
variable {w w' : World} {kept : Disk → Prop}

theorem Robust.replace (hkept : Robust kept) {path : Path} {bytes : List UInt8}
    {r : Except FileError Unit}
    (h : (host.replace path bytes).run w = (r, w')) (hw : kept w.disk) : kept w'.disk := by
  unfold Host.replace at h
  rcases run_bind_eq h with ⟨written, w₁, hwrite, h⟩
  rcases disturbed_eq hwrite with ⟨e, rfl, hdisk⟩ | ⟨rfl, hwritten⟩
  · rcases run_pure_eq h with ⟨-, rfl⟩
    rwa [hdisk]
  rcases write_eq_ok hwritten with ⟨hproper, hfree, hdisk₁, hfind⟩
  have hw₁ : kept w₁.disk := by
    rw [hdisk₁]
    exact hkept.put _ _ _ hproper hfree hw
  rcases run_bind_eq h with ⟨moved, w₂, hmove, h⟩
  rcases disturbed_eq hmove with ⟨e, rfl, hdisk₂⟩ | ⟨rfl, hmoved⟩
  · dsimp only at h
    rcases run_bind_eq h with ⟨removed, w₃, hremove, h⟩
    rcases run_pure_eq h with ⟨-, rfl⟩
    rw [← hdisk₂] at hfind hw₁
    rw [remove_eq hfind hremove]
    exact hkept.erase _ _ hproper (by simp [(find_eq_file hfind).2.1]) hw₁
  · rcases run_pure_eq h with ⟨-, rfl⟩
    rcases rename_eq_ok hmoved with ⟨content, hsource, hproper₁, hproper₂, hgoal, hdisk₂, -⟩
    rw [hdisk₂]
    apply hkept.put _ _ _ hproper₂
    · rw [node?_erase hproper₁]
      split_ifs
      · simp
      · exact hgoal
    · exact hkept.erase _ _ hproper₁ (by simp [hsource]) hw₁

/-- A save keeps what the directories that it may make keep as well. -/
theorem Robust.save (hkept : Robust kept) {s : Store} {module : String} {record : Record}
    {r : Except Store.Error Path}
    (hmake : ∀ p ∈ s.root.chain, ∀ d d', d.makeDir p = .ok d' → kept d → kept d')
    (h : (s.save host module record).run w = (r, w')) (hw : kept w.disk) : kept w'.disk := by
  unfold Store.save at h
  rcases run_bind_eq h with ⟨made, w₁, hmade, h⟩
  have hw₁ := makeDirs_preserves hmake hmade hw
  cases made with
  | error e =>
      rcases run_pure_eq h with ⟨-, rfl⟩
      exact hw₁
  | ok u =>
      dsimp only at h
      rcases run_bind_eq h with ⟨replaced, w₂, hreplace, h⟩
      have hw₂ := hkept.replace hreplace hw₁
      cases replaced with
      | error e =>
          rcases run_pure_eq h with ⟨-, rfl⟩
          exact hw₂
      | ok u =>
          rcases run_pure_eq h with ⟨-, rfl⟩
          exact hw₂

end

theorem robust_plain (d : Disk) (dir : Place) : Robust fun d₁ => d.Keeps d₁ ∧ d₁.Plain dir where
  put d₁ p bytes hproper hfree h :=
    ⟨h.1.trans (keeps_put hproper hfree), h.2.put hproper (by simp)⟩
  erase d₁ p hproper hfree h := ⟨h.1.trans (keeps_erase hproper hfree), h.2.erase hproper⟩

/-! ## Directories on the way to a store -/

theorem mem_parentsOf {absolute : Bool} {reversed : List String} {p : Path}
    (h : p ∈ Path.parentsOf absolute reversed) :
    ∃ below above, reversed = below ++ above ∧ p = Path.ofParts absolute above.reverse := by
  induction reversed with
  | nil => cases h
  | cons part above ih =>
      rw [Path.parentsOf] at h
      split_ifs at h
      · cases h
      · rcases List.mem_cons.mp h with rfl | h
        · exact ⟨[part], above, rfl, rfl⟩
        · rcases ih h with ⟨below, above', rfl, hp⟩
          exact ⟨part :: below, above', rfl, hp⟩

theorem mem_chain {p root : Path} (h : p ∈ root.chain) : p = root ∨ ∃ above below,
    root.parts = above ++ below ∧ p = Path.ofParts root.isAbsolute above := by
  rcases List.mem_cons.mp h with rfl | h
  · exact .inl rfl
  · rcases mem_parentsOf h with ⟨below, above, hparts, hp⟩
    refine .inr ⟨above.reverse, below.reverse, ?_, hp⟩
    rw [← List.reverse_append, ← hparts, List.reverse_reverse]

theorem prefix_foldl_enter (dir : Place) {parts : List String} (h : ".." ∉ parts) :
    dir <+: parts.foldl Place.enter dir := by
  induction parts generalizing dir with
  | nil => exact List.prefix_rfl
  | cons part parts ih =>
      simp only [List.mem_cons, not_or] at h
      have hstep : dir <+: dir.enter part := by
        rw [Place.enter, if_neg (Ne.symm h.1)]
        split_ifs
        · exact List.prefix_rfl
        · exact List.prefix_append _ _
      exact hstep.trans (ih _ h.2)

end Disk

namespace Store
open Disk

/-- Nothing lies in the place of a store, and two dots in its path follow only directories that are
there. -/
structure Fresh (s : Store) (d : Disk) : Prop where
  empty : ∀ name, d.node? (d.placeOf s.root ++ [name]) = none
  upward : ∀ above below, s.root.parts = above ++ ".." :: below →
    ∃ place, d.descend (if s.root.isAbsolute then [] else d.working) above = .ok place

/-- A directory that is made for a store does not lie in it. -/
theorem Fresh.makeDir {s : Store} {d d₁ d₂ : Disk} (h : s.Fresh d) (hk : d.Keeps d₁) {p : Path}
    (hp : p ∈ s.root.chain) (hmake : d₁.makeDir p = .ok d₂) (name : String) :
    d₁.placeOf p ≠ d.placeOf s.root ++ [name] := by
  intro hplace
  rcases mem_chain hp with rfl | ⟨above, below, hparts, rfl⟩
  · rw [hk.placeOf] at hplace
    simpa using congrArg List.length hplace
  have hcomponents : ∀ part ∈ above, Path.IsComponent part := fun part hpart =>
    Path.isComponent_of_mem_parts (by rw [hparts]; exact List.mem_append_left _ hpart)
  have hraw := Path.rawParts_ofParts s.root.isAbsolute hcomponents
  have habs := Path.isAbsolute_ofParts s.root.isAbsolute hcomponents
  by_cases hdots : ".." ∈ below
  -- The directory is there already.
  · rcases List.append_of_mem hdots with ⟨before, after, rfl⟩
    rcases h.upward (above ++ before) after (by rw [hparts, List.append_assoc]) with ⟨place, hwalk⟩
    rw [descend_append] at hwalk
    cases hdescend : d.descend (if s.root.isAbsolute then [] else d.working) above with
    | error e =>
        rw [hdescend] at hwalk
        cases hwalk
    | ok there =>
        have hcheck := checkPath_of_makeDir hmake
        have hfind : d₁.find (Path.ofParts s.root.isAbsolute above) = .ok (there, .directory) := by
          apply find_of_descend hcheck
          rw [hraw, habs, hk.working]
          exact hk.descend hdescend
        rw [makeDir_of_find hfind] at hmake
        cases hmake
  -- The directory lies above the store.
  · have hroot : d.placeOf s.root =
        below.foldl Place.enter (d₁.placeOf (Path.ofParts s.root.isAbsolute above)) := by
      rw [placeOf, placeOf, hraw, habs, hk.working, ← List.foldl_append, ← hparts,
        foldl_enter_parts]
    have hprefix := prefix_foldl_enter (d₁.placeOf (Path.ofParts s.root.isAbsolute above)) hdots
    rw [← hroot, hplace] at hprefix
    simpa using hprefix.length_le

/-! ## Rows of saves -/

/-- Records are saved one after the other, under names of their own or the same, and each save
succeeds. -/
inductive Saves (s : Store) (d : Disk) : List (String × Record) → Disk → Prop
  | nil : Saves s d [] d
  | snoc {saves : List (String × Record)} {module : String} {record : Record} {path : Path}
      {w w' : World} : Saves s d saves w.disk →
      (s.save host module record).run w = (.ok path, w') →
      Saves s d (saves ++ [(module, record)]) w'.disk

/-- The record that was saved last under a name. -/
def lastSaved (saves : List (String × Record)) (module : String) : Option Record :=
  saves.reverse.lookup module

@[simp] theorem lastSaved_snoc (saves : List (String × Record)) (module : String) (record : Record)
    (other : String) : lastSaved (saves ++ [(module, record)]) other =
      if other = module then some record else lastSaved saves other := by
  unfold lastSaved
  rw [List.reverse_append]
  by_cases h : other = module
  · simp [h]
  · have hne : (other == module) = false := beq_false_of_ne h
    simp [h, List.lookup_cons, hne]

theorem mem_of_lastSaved {saves : List (String × Record)} {module : String} {record : Record}
    (h : lastSaved saves module = some record) : (module, record) ∈ saves := by
  rcases List.lookup_eq_some_iff.mp h with ⟨before, after, hsaves, -⟩
  rw [← List.mem_reverse, hsaves]
  simp

theorem isSome_lastSaved {saves : List (String × Record)} {module : String} :
    (lastSaved saves module).isSome ↔ module ∈ saves.map Prod.fst := by
  constructor
  · intro h
    rcases Option.isSome_iff_exists.mp h with ⟨record, hrecord⟩
    exact List.mem_map_of_mem (mem_of_lastSaved hrecord)
  · intro h
    rcases List.mem_map.mp h with ⟨save, hsave, rfl⟩
    rw [Option.isSome_iff_ne_none, lastSaved, Ne, List.lookup_eq_none_iff]
    intro hall
    simpa using hall save (List.mem_reverse.mpr hsave)

/-- A name whose file the file system takes. -/
structure Short (s : Store) (module : String) : Prop where
  name : (fileName module).utf8ByteSize ≤ maxNameSize
  path : (s.pathFor module).utf8ByteSize ≤ maxPathSize

instance (s : Store) (module : String) : Decidable (s.Short module) :=
  decidable_of_iff ((fileName module).utf8ByteSize ≤ maxNameSize ∧
    (s.pathFor module).utf8ByteSize ≤ maxPathSize) ⟨fun h => ⟨h.1, h.2⟩, fun h => ⟨h.name, h.path⟩⟩

/-- The place of a store has the files of what was saved, and nothing else. -/
structure Holds (s : Store) (d : Disk) (saves : List (String × Record)) (d' : Disk) : Prop where
  keeps : d.Keeps d'
  plain : d'.Plain (d.placeOf s.root)
  files : ∀ name bytes, d'.file? (d.placeOf s.root ++ [name]) = some bytes ↔
    ∃ module record, name = fileName module ∧ lastSaved saves module = some record ∧
      bytes = Archive.encode record
  settled : saves ≠ [] → s.Settled d'
  short : ∀ save ∈ saves, s.Short save.1

theorem Fresh.holds {s : Store} {d : Disk} (h : s.Fresh d) : s.Holds d [] d where
  keeps := .refl d
  plain := by
    refine ⟨fun name => by simp [h.empty name], ?_⟩
    intro name
    have hnone := h.empty name
    rw [node?_append, List.lookup_eq_none_iff] at hnone
    rw [List.count_eq_zero.mpr]
    · exact Nat.zero_le 1
    · intro hmem
      rcases List.mem_map.mp hmem with ⟨node, hnode, hplace⟩
      simpa [hplace] using hnone node hnode
  files name bytes := by
    rw [file?_eq_some, h.empty name]
    simp [lastSaved]
  settled := by simp
  short := by simp

theorem short_of_find {s : Store} {d : Disk} {module : String} (hm : Path.IsComponent module)
    {place : Place} {bytes : List UInt8}
    (h : d.find (s.pathFor module) = .ok (place, .file bytes)) : s.Short module := by
  rcases (find_eq_file h).1.located with ⟨dir, part, hlocate, hpart, -⟩
  rcases locate_eq_ok.mp hlocate with ⟨hcheck, -, hlast⟩
  rw [rawParts_pathFor s hm.noSlash, List.getLast?_concat, Option.some.injEq] at hlast
  rw [← hlast] at hpart
  exact ⟨hpart.short, (checkPath_eq_ok.mp hcheck).2.2⟩

/-- One more save. -/
theorem Holds.save {s : Store} {d : Disk} {saves : List (String × Record)} {w w' : World}
    (hfresh : s.Fresh d) (h : s.Holds d saves w.disk) {module : String}
    (hm : Path.IsComponent module) {record : Record} {path : Path}
    (hsave : (s.save host module record).run w = (.ok path, w')) :
    s.Holds d (saves ++ [(module, record)]) w'.disk := by
  have hplain : d.Keeps w'.disk ∧ w'.disk.Plain (d.placeOf s.root) := by
    refine (robust_plain d (d.placeOf s.root)).save ?_ hsave ⟨h.keeps, h.plain⟩
    rintro p hp d₁ d₂ hmake ⟨hk, hd⟩
    rcases makeDir_eq_ok hmake with ⟨hproper, hnode, rfl⟩
    refine ⟨hk.trans (keeps_put hproper (by simp [hnode])), hd.put hproper ?_⟩
    intro name hname
    exact absurd hname (hfresh.makeDir hk hp hmake name)
  rcases save_eq hsave with ⟨e, he, -⟩ | ⟨-, hsaved⟩
  · cases he
  have hplace : s.placeOn w.disk module = d.placeOf s.root ++ [fileName module] := by
    rw [s.placeOn_eq _ hm.noSlash, h.keeps.placeOf]
  have htemp : s.tempOn w.disk module = d.placeOf s.root ++ [tempName host.tag module] := by
    rw [s.tempOn_eq _ hm.noSlash, h.keeps.placeOf]
  have hframe := hsaved.frame
  have hspent := hsaved.spent
  rw [hplace, htemp] at hframe
  rw [htemp] at hspent
  refine ⟨hplain.1, hplain.2, ?_, fun _ => settled_of_find hm hsaved.found, ?_⟩
  · intro name bytes
    simp only [lastSaved_snoc]
    by_cases hname : name = fileName module
    · have hnode := (find_eq_file hsaved.found).2.1
      rw [hplace, ← file?_eq_some, ← hname] at hnode
      rw [hnode]
      constructor
      · intro hbytes
        exact ⟨module, record, hname, if_pos rfl, (Option.some.inj hbytes).symm⟩
      · rintro ⟨other, saved, hother, hlast, rfl⟩
        rw [hname] at hother
        rw [← fileName_inj hother, if_pos rfl, Option.some.injEq] at hlast
        rw [hlast]
    · by_cases hgone : name = tempName host.tag module
      · rw [hgone, hspent]
        constructor
        · intro hbytes
          cases hbytes
        · rintro ⟨other, saved, hother, -, -⟩
          exact absurd hother.symm (fileName_ne_tempName other module _)
      · rw [hframe.files _ (by simp [hname, hgone]), h.files name bytes]
        apply exists_congr
        intro other
        apply exists_congr
        intro saved
        apply and_congr_right
        intro hother
        have hne : other ≠ module := by
          rintro rfl
          exact hname hother
        rw [if_neg hne]
  · intro save hmem
    rcases List.mem_append.mp hmem with hmem | hmem
    · exact h.short save hmem
    · rw [List.mem_singleton.mp hmem]
      exact short_of_find hm hsaved.found

theorem Saves.holds {s : Store} {d d' : Disk} {saves : List (String × Record)}
    (hfresh : s.Fresh d) (h : s.Saves d saves d')
    (hnames : ∀ save ∈ saves, Path.IsComponent save.1) : s.Holds d saves d' := by
  induction h with
  | nil => exact hfresh.holds
  | snoc _ hsave ih =>
      have hbefore := ih fun save hmem => hnames save (List.mem_append_left _ hmem)
      exact hbefore.save hfresh (hnames _ (List.mem_append_right _ List.mem_cons_self)) hsave

/-! ## Asking a store -/

section
variable {s : Store} {d : Disk} {saves : List (String × Record)} {w : World} {module : String}

theorem load_of_error {e : FileError} (h : w.disk.read (s.pathFor module) = .error e) :
    (s.load host module).run w =
      (if e = .notFound then .ok none else .error (.io (s.pathFor module) e), w) := by
  have hread : (host.read (s.pathFor module)).run w = (.error e, w) := by
    rw [← h]
    rfl
  unfold load
  rw [run_bind_of hread]
  cases e <;> rfl

theorem Settled.noNul (h : s.Settled d) : '\x00' ∉ s.root.toList := by
  rcases h.accepted with hempty | hcheck
  · simp [hempty]
  · exact (checkPath_eq_ok.mp hcheck).1

theorem checkPath_pathFor (hroot : '\x00' ∉ s.root.toList) (hm : Path.IsComponent module)
    (hnul : '\x00' ∉ module.toList) : checkPath (s.pathFor module) =
      if maxPathSize < (s.pathFor module).utf8ByteSize then .error .nameTooLong else .ok () := by
  have hname : '\x00' ∉ (fileName module).toList := by
    simp [fileName, extension, hnul]
  have hclean : '\x00' ∉ (s.pathFor module).toList := by
    intro hmem
    rcases (mem_join (isComponent_fileName hm.noSlash) (by decide)).mp hmem with hmem | hmem
    · exact hroot hmem
    · exact hname hmem
  have hne : s.pathFor module ≠ "" := by
    intro hempty
    have hraw := rawParts_pathFor s hm.noSlash
    rw [hempty] at hraw
    simp [Path.rawParts, Path.splitSlashes] at hraw
  rw [checkPath, if_neg (by simpa using hclean), if_neg (by simpa using hne)]

theorem Short.checkPath_pathFor (hshort : s.Short module) (hroot : '\x00' ∉ s.root.toList)
    (hm : Path.IsComponent module) (hnul : '\x00' ∉ module.toList) :
    checkPath (s.pathFor module) = .ok () := by
  rw [Store.checkPath_pathFor hroot hm hnul, if_neg (not_lt.mpr hshort.path)]

theorem Holds.node?_placeOn (h : s.Holds d saves w.disk) (hm : Path.IsComponent module) :
    w.disk.node? (s.placeOn w.disk module) =
      (lastSaved saves module).map fun record => .file (Archive.encode record) := by
  have hplace : s.placeOn w.disk module = d.placeOf s.root ++ [fileName module] := by
    rw [s.placeOn_eq _ hm.noSlash, h.keeps.placeOf]
  rw [hplace]
  cases hlast : lastSaved saves module with
  | some record =>
      rw [Option.map_some, ← file?_eq_some]
      exact (h.files _ _).mpr ⟨module, record, rfl, hlast, rfl⟩
  | none =>
      cases hnode : w.disk.node? (d.placeOf s.root ++ [fileName module]) with
      | none => rfl
      | some n =>
          cases n with
          | directory => exact absurd hnode (h.plain.files _)
          | file bytes =>
              rcases (h.files _ _).mp (file?_eq_some.mpr hnode) with ⟨other, record, hname, hrest⟩
              rw [← fileName_inj hname, hlast] at hrest
              cases hrest.1

theorem Holds.find_of_short (h : s.Holds d saves w.disk) (hsettled : s.Settled w.disk)
    (hm : Path.IsComponent module) (hnul : '\x00' ∉ module.toList) (hshort : s.Short module) :
    w.disk.find (s.pathFor module) =
      match lastSaved saves module with
      | some record => .ok (s.placeOn w.disk module, .file (Archive.encode record))
      | none => .error .notFound := by
  have hcheck := hshort.checkPath_pathFor hsettled.noNul hm hnul
  rw [hsettled.find_pathFor hm hcheck, if_neg (not_lt.mpr hshort.name), h.node?_placeOn hm]
  cases lastSaved saves module <;> rfl

theorem Holds.load_of_short (h : s.Holds d saves w.disk) (hsettled : s.Settled w.disk)
    (hm : Path.IsComponent module) (hnul : '\x00' ∉ module.toList) (hshort : s.Short module)
    (hrecords : ∀ save ∈ saves, save.2.Fits 1000) :
    (s.load host module).run w = (.ok (lastSaved saves module), w) := by
  have hfind := h.find_of_short hsettled hm hnul hshort
  cases hlast : lastSaved saves module with
  | none =>
      rw [hlast] at hfind
      rw [load_of_error (read_of_error hfind), if_pos rfl]
  | some record =>
      rw [hlast] at hfind
      have hfits := hrecords _ (mem_of_lastSaved hlast)
      have hdeep : 1000 ≤ Pack.maxDepth := by decide
      have hdecode := Archive.decode_encode_append
        ⟨hfits.ordered, hfits.sized, hfits.nested.trans hdeep⟩ []
      rw [List.append_nil] at hdecode
      rw [load_of_read (read_of_find hfind), hdecode]

theorem load_of_not_short (hsettled : s.Settled w.disk) (hm : Path.IsComponent module)
    (hnul : '\x00' ∉ module.toList) (hlong : ¬ s.Short module) :
    (s.load host module).run w = (.error (.io (s.pathFor module) .nameTooLong), w) := by
  have hcheck := checkPath_pathFor hsettled.noNul hm hnul
  have hfind : w.disk.find (s.pathFor module) = .error .nameTooLong := by
    by_cases hpath : maxPathSize < (s.pathFor module).utf8ByteSize
    · rw [if_pos hpath] at hcheck
      exact find_of_checkPath hcheck
    · rw [if_neg hpath] at hcheck
      have hname : maxNameSize < (fileName module).utf8ByteSize := by
        rw [← not_le]
        intro hname
        exact hlong ⟨hname, not_lt.mp hpath⟩
      rw [hsettled.find_pathFor hm hcheck, if_pos hname]
  rw [load_of_error (read_of_error hfind), if_neg (by decide)]

theorem Holds.isFile_pathFor (h : s.Holds d saves w.disk) (hm : Path.IsComponent module)
    (hnul : '\x00' ∉ module.toList) :
    w.disk.isFile (s.pathFor module) = decide (module ∈ saves.map Prod.fst) := by
  rw [Bool.eq_iff_iff, decide_eq_true_iff, ← isSome_lastSaved]
  constructor
  · intro hfile
    unfold Disk.isFile at hfile
    split at hfile
    · rename_i place bytes hfind
      rcases find_eq_file hfind with ⟨hleads, hnode, -⟩
      have hthere := h.node?_placeOn hm
      rw [placeOn, hleads.placed, hnode] at hthere
      cases hlast : lastSaved saves module with
      | none => simp [hlast] at hthere
      | some record => rfl
    · cases hfile
  · intro hsaved
    rcases Option.isSome_iff_exists.mp hsaved with ⟨record, hlast⟩
    have hmem := mem_of_lastSaved hlast
    have hsettled := h.settled (List.ne_nil_of_mem hmem)
    have hfind := h.find_of_short hsettled hm hnul (h.short _ hmem)
    rw [hlast] at hfind
    unfold Disk.isFile
    rw [hfind]

theorem Holds.listed (h : s.Holds d saves w.disk) (hroot : s.root ≠ "") :
    w.disk.find s.root = .ok (d.placeOf s.root, .directory) ∨
      saves = [] ∧ w.disk.fileNames s.root = [] := by
  by_cases hsettled : s.Settled w.disk
  · left
    rw [hsettled.find_root hroot, h.keeps.placeOf]
  · refine .inr ⟨by_contra fun hsaves => hsettled (h.settled hsaves), ?_⟩
    unfold fileNames
    split
    · rename_i dir hfind
      exact absurd (settled_of_find_root hfind) hsettled
    · rfl

theorem Holds.mem_filterMap (h : s.Holds d saves w.disk) (hroot : s.root ≠ "")
    (hnames : ∀ save ∈ saves, Path.IsComponent save.1) :
    module ∈ (w.disk.fileNames s.root).filterMap moduleOfName ↔ module ∈ saves.map Prod.fst := by
  rcases h.listed hroot with hfind | ⟨rfl, hnone⟩
  · rw [List.mem_filterMap, ← isSome_lastSaved]
    constructor
    · rintro ⟨name, hname, hmodule⟩
      rcases (h.plain.mem_fileNames hfind).mp hname with ⟨bytes, hfile⟩
      rcases (h.files _ _).mp hfile with ⟨other, record, hother, hlast, -⟩
      have hsame : fileName other = fileName module := by
        rw [← hother, (moduleOfName_eq_some.mp hmodule).1]
      rw [← fileName_inj hsame, hlast]
      rfl
    · intro hsaved
      rcases Option.isSome_iff_exists.mp hsaved with ⟨record, hlast⟩
      have hm := hnames _ (mem_of_lastSaved hlast)
      refine ⟨fileName module, ?_, moduleOfName_eq_some.mpr ⟨rfl, hm.nonempty⟩⟩
      exact (h.plain.mem_fileNames hfind).mpr ⟨_, (h.files _ _).mpr ⟨_, _, rfl, hlast, rfl⟩⟩
  · simp [hnone]

theorem Holds.nodup_filterMap (h : s.Holds d saves w.disk) (hroot : s.root ≠ "") :
    ((w.disk.fileNames s.root).filterMap moduleOfName).Nodup := by
  have hinj : ∀ a b m, m ∈ moduleOfName a → m ∈ moduleOfName b → a = b := by
    intro a b m ha hb
    rw [(moduleOfName_eq_some.mp ha).1, (moduleOfName_eq_some.mp hb).1]
  apply List.Nodup.filterMap hinj
  rcases h.listed hroot with hfind | ⟨-, hnone⟩
  · exact h.plain.nodup_fileNames hfind
  · rw [hnone]
    exact List.nodup_nil

theorem pairwise_lt_mergeSort {names : List String} (h : names.Nodup) :
    names.mergeSort.Pairwise (· < ·) := by
  have hsorted := List.pairwise_mergeSort' (· ≤ ·) names
  have hnodup : names.mergeSort.Nodup := (List.mergeSort_perm names _).nodup_iff.mpr h
  exact (hsorted.and hnodup).imp fun h => lt_of_le_of_ne h.1 h.2

theorem list_run (s : Store) (w : World) : (s.list host).run w =
    (((w.disk.fileNames s.root).filterMap moduleOfName).mergeSort, w) := rfl

@[simp] theorem fileNames_empty (d : Disk) : d.fileNames "" = [] := rfl

/-! ## Before the first save -/

/-- Why a store in which nothing was saved cannot be asked: its path leads to or through something
that is no directory, or is no path that a file system takes. A missing directory is no obstacle. -/
def obstacle? (s : Store) (d : Disk) : Option FileError :=
  match d.find s.root with
  | .ok (_, .directory) | .error .notFound => none
  | .ok (_, .file _) => some .notDirectory
  | .error e => some e

theorem find_pathFor_of_descend (hm : Path.IsComponent module)
    (hcheck : checkPath (s.pathFor module) = .ok ()) {e : FileError}
    (h : d.descend (if s.root.isAbsolute then [] else d.working) s.root.rawParts = .error e) :
    d.find (s.pathFor module) = .error e := by
  apply find_of_locate_error
  rw [locate, hcheck, rawParts_pathFor s hm.noSlash, isAbsolute_pathFor s hm.noSlash,
    List.dropLast_concat]
  simp [h, bind, Except.bind]

/-- A path that is refused as such is refused with a file name behind it, unless it is empty. -/
theorem checkPath_pathFor_of_error {e : FileError} (h : checkPath s.root = .error e)
    (he : e ≠ .notFound) (hm : Path.IsComponent module) (hshort : s.Short module) :
    checkPath (s.pathFor module) = .error e := by
  unfold checkPath at h
  split_ifs at h with hnul hempty hlong
  · have hmem : '\x00' ∈ (s.pathFor module).toList :=
      (mem_join (isComponent_fileName hm.noSlash) (by decide)).mpr (.inl (by simpa using hnul))
    rw [checkPath, if_pos (by simpa using hmem)]
    exact h
  · exact absurd (Except.error.inj h).symm he
  · have hle := utf8ByteSize_le_join s.root (isComponent_fileName hm.noSlash)
    exact absurd (hlong.trans_le (hle.trans hshort.path)) (lt_irrefl _)

theorem obstacle?_of_error {e : FileError} (h : d.find s.root = .error e) :
    s.obstacle? d = if e = .notFound then none else some e := by
  unfold obstacle?
  rw [h]
  cases e <;> rfl

theorem load_of_obstacle {e : FileError} (h : s.obstacle? w.disk = some e)
    (hm : Path.IsComponent module) (hnul : '\x00' ∉ module.toList) (hshort : s.Short module) :
    (s.load host module).run w = (.error (.io (s.pathFor module) e), w) := by
  suffices hfind : e ≠ .notFound ∧ w.disk.find (s.pathFor module) = .error e by
    rw [load_of_error (read_of_error hfind.2), if_neg hfind.1]
  cases hcheck : checkPath s.root with
  | error refused =>
      rw [obstacle?_of_error (find_of_checkPath hcheck)] at h
      split_ifs at h with hmissing
      obtain rfl := Option.some.inj h
      have hpath := checkPath_pathFor_of_error hcheck hmissing hm hshort
      exact ⟨hmissing, find_of_checkPath hpath⟩
  | ok u =>
      have hpath := hshort.checkPath_pathFor (checkPath_eq_ok.mp hcheck).1 hm hnul
      have hdescend := @descend_eq_find w.disk s.root hcheck
      cases hfind : w.disk.find s.root with
      | error refused =>
          rw [hfind] at hdescend
          rw [obstacle?_of_error hfind] at h
          split_ifs at h with hmissing
          obtain rfl := Option.some.inj h
          exact ⟨hmissing, find_pathFor_of_descend hm hpath hdescend⟩
      | ok found =>
          obtain ⟨place, n⟩ := found
          unfold obstacle? at h
          rw [hfind] at h hdescend
          cases n with
          | directory => cases h
          | file bytes =>
              obtain rfl := Option.some.inj h
              exact ⟨by decide, find_pathFor_of_descend hm hpath hdescend⟩

/-- Without an obstacle, the directory of a store is there or a part of the way to it is missing. -/
theorem settled_or_missing (h : s.obstacle? d = none) : s.Settled d ∨ checkPath s.root = .ok () ∧
    d.descend (if s.root.isAbsolute then [] else d.working) s.root.rawParts = .error .notFound := by
  by_cases hempty : s.root = ""
  · exact .inl (settled_of_root_eq hempty)
  cases hfind : d.find s.root with
  | ok found =>
      obtain ⟨place, n⟩ := found
      cases n with
      | directory => exact .inl (settled_of_find_root hfind)
      | file bytes =>
          unfold obstacle? at h
          rw [hfind] at h
          cases h
  | error e =>
      rw [obstacle?_of_error hfind] at h
      split_ifs at h with hmissing
      rw [hmissing] at hfind
      cases hcheck : checkPath s.root with
      | ok u => exact .inr ⟨rfl, by rw [descend_eq_find hcheck, hfind]⟩
      | error refused =>
          rw [find_of_checkPath hcheck] at hfind
          obtain rfl := Except.error.inj hfind
          unfold checkPath at hcheck
          split_ifs at hcheck with hnul hroot hlong
          · cases hcheck
          · exact absurd (by simpa using hroot) hempty
          · cases hcheck

theorem Holds.load_of_no_obstacle (h : s.Holds w.disk [] w.disk)
    (hobstacle : s.obstacle? w.disk = none) (hm : Path.IsComponent module)
    (hnul : '\x00' ∉ module.toList) (hshort : s.Short module) :
    (s.load host module).run w = (.ok none, w) := by
  rcases settled_or_missing hobstacle with hsettled | ⟨hcheck, hmissing⟩
  · exact h.load_of_short hsettled hm hnul hshort (List.forall_mem_nil _)
  · have hpath := hshort.checkPath_pathFor (checkPath_eq_ok.mp hcheck).1 hm hnul
    have hfind := find_pathFor_of_descend hm hpath hmissing
    rw [load_of_error (read_of_error hfind), if_pos rfl]

theorem Saves.eq_of_nil {d' : Disk} (h : s.Saves d [] d') : d' = d := by
  generalize hnil : ([] : List (String × Record)) = saves at h
  cases h with
  | nil => rfl
  | snoc => simp at hnil

end

/-- After any row of saves that begins with an empty place, a store answers as the map of what was
saved does, for all names that a file system takes. Only the empty path is not listed, and before
the first save an obstacle on the way to the store is told for every name. -/
theorem store_acts_as_map {s : Store} {d : Disk} {saves : List (String × Record)} {w : World}
    (hfresh : s.Fresh d) (hsaves : s.Saves d saves w.disk)
    (hnames : ∀ save ∈ saves, Path.IsComponent save.1)
    (hrecords : ∀ save ∈ saves, save.2.Fits 1000) :
    (∀ module, Path.IsComponent module → '\x00' ∉ module.toList →
      (s.contains host module).run w = (decide (module ∈ saves.map Prod.fst), w) ∧
      if s.Short module then
        (saves ≠ [] ∨ s.obstacle? d = none →
          (s.load host module).run w = (.ok (lastSaved saves module), w)) ∧
        ∀ e, saves = [] → s.obstacle? d = some e →
          (s.load host module).run w = (.error (.io (s.pathFor module) e), w)
      else module ∉ saves.map Prod.fst ∧ (saves ≠ [] →
        (s.load host module).run w = (.error (.io (s.pathFor module) .nameTooLong), w))) ∧
    ∃ names, (s.list host).run w = (names, w) ∧
      if s.root = "" then names = []
      else names.Pairwise (· < ·) ∧ ∀ module, module ∈ names ↔ module ∈ saves.map Prod.fst := by
  have hholds := hsaves.holds hfresh hnames
  constructor
  · intro module hm hnul
    constructor
    · rw [← hholds.isFile_pathFor hm hnul]
      rfl
    · split_ifs with hshort
      · constructor
        · intro hasked
          by_cases hnil : saves = []
          · subst hnil
            obtain rfl := hsaves.eq_of_nil
            exact hholds.load_of_no_obstacle (hasked.resolve_left fun h => h rfl) hm hnul hshort
          · exact hholds.load_of_short (hholds.settled hnil) hm hnul hshort hrecords
        · rintro e rfl hobstacle
          rw [← hsaves.eq_of_nil] at hobstacle
          exact load_of_obstacle hobstacle hm hnul hshort
      · refine ⟨?_, fun hne => load_of_not_short (hholds.settled hne) hm hnul hshort⟩
        intro hmem
        rcases List.mem_map.mp hmem with ⟨save, hsave, rfl⟩
        exact hshort (hholds.short save hsave)
  · refine ⟨_, s.list_run w, ?_⟩
    split_ifs with hroot
    · simp [hroot]
    · constructor
      · exact pairwise_lt_mergeSort (hholds.nodup_filterMap hroot)
      · intro module
        rw [(List.mergeSort_perm _ _).mem_iff]
        exact hholds.mem_filterMap hroot hnames

/-- A name with a dot that is saved twice, and one that looks like a temporary file of the store. -/
def dottedSaves : List (String × Record) :=
  [("a.b", {}), (".t.idb.0.tmp", {}), ("a.b", Archive.nestedRecord)]

/-- The world after saving a record. -/
def after (s : Store) (w : World) (module : String) (record : Record) : World :=
  ((s.save host module record).run w).2

theorem Saves.after {s : Store} {d : Disk} {saves : List (String × Record)} {w : World}
    (h : s.Saves d saves w.disk) {module : String} {record : Record}
    (hok : ((s.save host module record).run w).1.isOk) :
    s.Saves d (saves ++ [(module, record)]) (s.after w module record).disk := by
  cases hsave : ((s.save host module record).run w).1 with
  | error e =>
      rw [hsave] at hok
      cases hok
  | ok path => exact h.snoc (Prod.ext hsave rfl)

def dottedWorld : World :=
  let s : Store := ⟨"out/./db"⟩
  s.after (s.after (s.after {} "a.b" {}) ".t.idb.0.tmp" {}) "a.b" Archive.nestedRecord

theorem fits_empty : ({} : Record).Fits 1000 where
  ordered := by simp [Record.Ordered, Entry.OrderedTable, Table.Ascending, Table.keys]
  sized := by decide +kernel
  nested := by decide

theorem fresh_of_noDots {s : Store} {d : Disk}
    (hempty : ∀ name, d.node? (d.placeOf s.root ++ [name]) = none) (hdots : ".." ∉ s.root.parts) :
    s.Fresh d := by
  refine ⟨hempty, fun above below hparts => ?_⟩
  rw [hparts] at hdots
  simp at hdots

theorem fresh_empty {s : Store} (hdots : ".." ∉ s.root.parts) : s.Fresh {} := by
  refine fresh_of_noDots (fun name => ?_) hdots
  simp

theorem store_acts_as_map_dotted :
    Fresh ⟨"out/./db"⟩ {} ∧ Saves ⟨"out/./db"⟩ {} dottedSaves dottedWorld.disk ∧
      (load host ⟨"out/./db"⟩ "a.b").run dottedWorld =
        (.ok (some Archive.nestedRecord), dottedWorld) ∧
      (load host ⟨"out/./db"⟩ "a").run dottedWorld = (.ok none, dottedWorld) ∧
      ∃ names, (list host ⟨"out/./db"⟩).run dottedWorld = (names, dottedWorld) ∧
        names.Pairwise (· < ·) ∧ ∀ m, m ∈ names ↔ m = "a.b" ∨ m = ".t.idb.0.tmp" := by
  have hkeys : ∀ m, m ∈ dottedSaves.map Prod.fst ↔ m = "a.b" ∨ m = ".t.idb.0.tmp" := by
    intro m
    simp only [dottedSaves, List.map_cons, List.map_nil, List.mem_cons, List.not_mem_nil]
    tauto
  have hfresh : Fresh ⟨"out/./db"⟩ {} := fresh_empty (by decide +kernel)
  have hsaves : Saves ⟨"out/./db"⟩ {} dottedSaves dottedWorld.disk := by
    have hempty : Saves ⟨"out/./db"⟩ {} [] ({} : World).disk := .nil
    exact ((hempty.after (by decide +kernel)).after (by decide +kernel)).after (by decide +kernel)
  have hrecords : ∀ save ∈ dottedSaves, save.2.Fits 1000 := by
    simp [dottedSaves, fits_empty, Archive.nestedRecord_fits]
  rcases store_acts_as_map hfresh hsaves (by decide +kernel) hrecords with ⟨hask, names, hlist, h⟩
  have hab := (hask "a.b" (by decide) (by decide)).2
  have ha := (hask "a" (by decide) (by decide)).2
  rw [if_pos (by decide +kernel)] at hab ha
  have hsaved : dottedSaves ≠ [] := List.cons_ne_nil _ _
  rw [if_neg (by decide)] at h
  exact ⟨hfresh, hsaves, hab.1 (.inl hsaved), ha.1 (.inl hsaved), names, hlist, h.1,
    fun m => (h.2 m).trans (hkeys m)⟩

/-- A name of so many letters. -/
def letters (n : ℕ) : String := String.ofList (List.replicate n 'a')

theorem mem_letters {n : ℕ} {c : Char} (h : c ∈ (letters n).toList) : c = 'a' := by
  rw [letters, String.toList_ofList] at h
  exact List.eq_of_mem_replicate h

theorem isComponent_letters (n : ℕ) : Path.IsComponent (letters (n + 1)) := by
  constructor
  · simp [letters, List.replicate_succ]
  · intro hslash
    exact absurd (mem_letters hslash) (by decide)

/-- Beyond these limits a store is no map, not even after one save in a missing directory or none at
all: the working directory is not listed, a name too long for a file cannot be asked for, neither
can a store below a file, and a path with two dots may have put a directory in the place of a file.
-/
theorem store_departs_from_map :
    (∃ w, ({} : Disk).find "" = .error .notFound ∧ Saves ⟨""⟩ {} [("sys", {})] w.disk ∧
      ((contains host ⟨""⟩ "sys").run w).1 = true ∧ ((list host ⟨""⟩).run w).1 = []) ∧
    (∃ w long, ({} : Disk).find "db" = .error .notFound ∧ Saves ⟨"db"⟩ {} [("sys", {})] w.disk ∧
      Path.IsComponent long ∧ '\x00' ∉ long.toList ∧
      ((load host ⟨"db"⟩ long).run w).1 = .error (.io (pathFor ⟨"db"⟩ long) .nameTooLong)) ∧
    (∃ w, Fresh ⟨"f/db"⟩ w.disk ∧ w.disk.isDir "f/db" = false ∧
      ((load host ⟨"f/db"⟩ "m").run w).1 = .error (.io "f/db/m.idb" .notDirectory)) ∧
    ∃ w, ({} : Disk).find "n/m.idb/.." = .error .notFound ∧
      Saves ⟨"n/m.idb/.."⟩ {} [("other", {})] w.disk ∧
      ((load host ⟨"n/m.idb/.."⟩ "m").run w).1 = .error (.io "n/m.idb/../m.idb" .isDirectory) := by
  have hempty : ∀ s : Store, s.Saves {} [] ({} : World).disk := fun _ => .nil
  refine ⟨⟨_, ?_, (hempty _).after ?_, ?_, ?_⟩, ?_, ?_, _, ?_, (hempty _).after ?_, ?_⟩
  · decide +kernel
  · decide +kernel
  · decide +kernel
  · simp [list_run]
  · have hfresh : Fresh ⟨"db"⟩ {} := fresh_empty (by decide +kernel)
    have hsaves : Saves ⟨"db"⟩ {} [("sys", {})] (after ⟨"db"⟩ {} "sys" {}).disk :=
      (hempty _).after (by decide +kernel)
    have hholds := hsaves.holds hfresh (by decide +kernel)
    have hnul : '\x00' ∉ (letters 252).toList := fun hnul =>
      absurd (mem_letters hnul) (by decide)
    have hlong : ¬ Short ⟨"db"⟩ (letters 252) := fun hshort =>
      absurd hshort.name (by decide +kernel)
    have hm := isComponent_letters 251
    refine ⟨_, letters 252, by decide +kernel, hsaves, hm, hnul, ?_⟩
    rw [load_of_not_short (hholds.settled (List.cons_ne_nil _ _)) hm hnul hlong]
  · let w : World := { disk := ⟨[(["f"], .file [])], []⟩ }
    have hplace : w.disk.placeOf "f/db" = ["f", "db"] := by decide +kernel
    have hfresh : Fresh ⟨"f/db"⟩ w.disk := by
      refine fresh_of_noDots (fun name => ?_) (by decide +kernel)
      rw [hplace, node?_append]
      rfl
    exact ⟨w, hfresh, by decide +kernel, by decide +kernel⟩
  · decide +kernel
  · decide +kernel
  · decide +kernel

end Store
end CompletionDb
