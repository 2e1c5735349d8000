import Mathlib.Data.Set.Insert
import CompletionDb.Proofs.DiskChanges

/-!
# Saving and loading records

A record is saved through a temporary file that is then moved to the file of its module. Whatever
fails on the way, and whatever disturbs it, the files of the disk are as before, apart from the
temporary file, which is gone; only directories may have been made. If nothing fails, the file of
the module holds the archived record and no other file has changed.

What is loaded depends on the file of the module alone, as long as the path of the store leads to
its directory. A path with two dots in it may begin to do so late, when another directory is made;
`Ready` leaves out that case.
-/
namespace CompletionDb

namespace Disk

/-- Directories stay, and files change at most at the given places. -/
structure Frame (d : Disk) (places : Set Place) (d' : Disk) : Prop where
  keeps : d.Keeps d'
  files : ∀ p, p ∉ places → d'.file? p = d.file? p

theorem Frame.refl (d : Disk) (places : Set Place) : d.Frame places d := ⟨.refl d, fun _ _ => rfl⟩

theorem Frame.trans {a b c : Disk} {places : Set Place} (hab : a.Frame places b)
    (hbc : b.Frame places c) : a.Frame places c :=
  ⟨hab.keeps.trans hbc.keeps, fun p hp => (hbc.files p hp).trans (hab.files p hp)⟩

theorem Frame.mono {a b : Disk} {places more : Set Place} (h : a.Frame places b)
    (hsub : places ⊆ more) : a.Frame more b :=
  ⟨h.keeps, fun p hp => h.files p fun hmem => hp (hsub hmem)⟩

/-! ## One operation after the other -/

section
variable {α β : Type} {w w' : World}

/-- A run of two computations passes through the world that the first one leaves. -/
theorem run_bind_eq {x : StateM World α} {f : α → StateM World β} {b : β}
    (h : (x >>= f).run w = (b, w')) :
    ∃ a w₁, x.run w = (a, w₁) ∧ (f a).run w₁ = (b, w') :=
  ⟨_, _, rfl, h⟩

theorem run_bind_of {x : StateM World α} {f : α → StateM World β} {a : α} {w₁ : World}
    (h : x.run w = (a, w₁)) : (x >>= f).run w = (f a).run w₁ := by
  rw [StateT.run_bind, h]
  rfl

theorem run_pure_eq {a b : α} (h : (pure a : StateM World α).run w = (b, w')) :
    a = b ∧ w = w' :=
  Prod.mk.inj h

theorem change_eq {op : Disk → Except FileError Disk} {r : Except FileError Unit}
    (h : (change op).run w = (r, w')) :
    (∃ e, r = .error e ∧ w'.disk = w.disk) ∨ r = .ok () ∧ op w.disk = .ok w'.disk := by
  unfold change at h
  cases hop : op w.disk with
  | error e =>
      left
      simp only [StateT.run, hop] at h
      obtain ⟨rfl, rfl⟩ := Prod.mk.inj h
      exact ⟨e, rfl, rfl⟩
  | ok d =>
      right
      simp only [StateT.run, hop] at h
      obtain ⟨rfl, rfl⟩ := Prod.mk.inj h
      exact ⟨rfl, rfl⟩

/-- Whether an operation is disturbed or fails by itself makes no difference to the disk. -/
theorem disturbed_eq {op : Disk → Except FileError Disk} {r : Except FileError Unit}
    (h : (disturbed op).run w = (r, w')) :
    (∃ e, r = .error e ∧ w'.disk = w.disk) ∨ r = .ok () ∧ op w.disk = .ok w'.disk := by
  cases hfaults : w.faults with
  | nil =>
      simp only [disturbed, StateT.run, hfaults] at h
      exact change_eq h
  | cons fault faults =>
      cases fault with
      | none =>
          simp only [disturbed, StateT.run, hfaults] at h
          exact change_eq (w := { w with faults := faults }) h
      | some e =>
          left
          simp only [disturbed, StateT.run, hfaults] at h
          obtain ⟨rfl, rfl⟩ := Prod.mk.inj h
          exact ⟨e, rfl, rfl⟩

theorem host_remove (p : Path) : host.remove p = change (·.remove p) := rfl

/-- Removing is never disturbed. -/
theorem remove_eq {p : Path} {place : Place} {bytes : List UInt8} {r : Except FileError Unit}
    (hfind : w.disk.find p = .ok (place, .file bytes)) (h : (host.remove p).run w = (r, w')) :
    w'.disk = w.disk.erase place := by
  rw [host_remove] at h
  simp only [change, StateT.run, remove_of_find hfind] at h
  rw [← (Prod.mk.inj h).2]

theorem makeDir_preserves {kept : Disk → Prop} {p : Path} {r : Except FileError Unit}
    (hkept : ∀ d d', d.makeDir p = .ok d' → kept d → kept d')
    (h : (host.makeDir p).run w = (r, w')) (hw : kept w.disk) : kept w'.disk := by
  rcases disturbed_eq h with ⟨e, -, hdisk⟩ | ⟨-, hop⟩
  · rw [hdisk]
    exact hw
  · exact hkept _ _ hop hw

theorem makeChain_preserves {kept : Disk → Prop} {paths : List Path} {r : Except FileError Unit}
    (hkept : ∀ p ∈ paths, ∀ d d', d.makeDir p = .ok d' → kept d → kept d')
    (h : (host.makeChain paths).run w = (r, w')) (hw : kept w.disk) : kept w'.disk := by
  induction paths generalizing w w' r with
  | nil =>
      obtain ⟨-, rfl⟩ := run_pure_eq h
      exact hw
  | cons path parents ih =>
      have hfirst := hkept path List.mem_cons_self
      rw [Host.makeChain] at h
      obtain ⟨made, w₁, hmade, h⟩ := run_bind_eq h
      have hw₁ := makeDir_preserves hfirst hmade hw
      split at h
      · obtain ⟨-, rfl⟩ := run_pure_eq h
        exact hw₁
      · obtain ⟨above, w₂, habove, h⟩ := run_bind_eq h
        have hw₂ := ih (fun p hp => hkept p (List.mem_cons_of_mem _ hp)) habove hw₁
        split at h
        · obtain ⟨-, rfl⟩ := run_pure_eq h
          exact hw₂
        · obtain ⟨again, w₃, hagain, h⟩ := run_bind_eq h
          have hw₃ := makeDir_preserves hfirst hagain hw₂
          split at h
          · obtain ⟨-, rfl⟩ := run_pure_eq h
            exact hw₃
          · obtain ⟨found, w₄, hfound, h⟩ := run_bind_eq h
            obtain ⟨-, rfl⟩ := run_pure_eq hfound
            obtain ⟨-, rfl⟩ := run_pure_eq h
            exact hw₃
      · obtain ⟨found, w₂, hfound, h⟩ := run_bind_eq h
        obtain ⟨-, rfl⟩ := run_pure_eq hfound
        obtain ⟨-, rfl⟩ := run_pure_eq h
        exact hw₁

/-- What is kept by each directory that may be made is kept when all of them are. -/
theorem makeDirs_preserves {kept : Disk → Prop} {p : Path} {r : Except FileError Unit}
    (hkept : ∀ q ∈ p.chain, ∀ d d', d.makeDir q = .ok d' → kept d → kept d')
    (h : (host.makeDirs p).run w = (r, w')) (hw : kept w.disk) : kept w'.disk := by
  unfold Host.makeDirs at h
  split_ifs at h
  · obtain ⟨-, rfl⟩ := run_pure_eq h
    exact hw
  · exact makeChain_preserves hkept h hw

theorem frame_makeDir {d d' : Disk} {p : Path} (h : d.makeDir p = .ok d') : d.Frame ∅ d' := by
  obtain ⟨hproper, hnode, rfl⟩ := makeDir_eq_ok h
  refine ⟨keeps_put hproper (by simp [hnode]), ?_⟩
  intro p _
  unfold file?
  rw [node?_put hproper]
  split_ifs with hp
  · rw [hp, hnode]
  · rfl

theorem frame_makeDirs {p : Path} {r : Except FileError Unit}
    (h : (host.makeDirs p).run w = (r, w')) : w.disk.Frame ∅ w'.disk :=
  makeDirs_preserves (fun _ _ _ _ hmake hframe => hframe.trans (frame_makeDir hmake)) h (.refl _ _)

end

theorem file?_put {d : Disk} {p : Place} (hp : p ≠ []) (bytes : List UInt8) (q : Place) :
    (d.put p (.file bytes)).file? q = if q = p then some bytes else d.file? q := by
  unfold file?
  rw [node?_put hp]
  split_ifs <;> rfl

theorem file?_erase {d : Disk} {p : Place} (hp : p ≠ []) (q : Place) :
    (d.erase p).file? q = if q = p then none else d.file? q := by
  unfold file?
  rw [node?_erase hp]
  split_ifs <;> rfl

/-! ## A temporary file -/

section
variable {d d₁ d₂ : Disk} {temp path : Path} {bytes : List UInt8}

/-- A file that is written and removed again leaves nothing behind. -/
theorem erase_after_write (hwrite : d.write temp bytes = .ok d₁) :
    d.Frame {d.placeOf temp} (d₁.erase (d.placeOf temp)) ∧
      (d₁.erase (d.placeOf temp)).file? (d.placeOf temp) = none := by
  obtain ⟨hproper, hfree, rfl, hfind⟩ := write_eq_ok hwrite
  have hnode := (find_eq_file hfind).2.1
  refine ⟨⟨?_, ?_⟩, by rw [file?_erase hproper, if_pos rfl]⟩
  · exact (keeps_put hproper hfree).trans (keeps_erase hproper (by simp [hnode]))
  · intro q hq
    rw [Set.mem_singleton_iff] at hq
    rw [file?_erase hproper, if_neg hq, file?_put hproper, if_neg hq]

/-- A file that is written and moved elsewhere is there and nowhere else. -/
theorem rename_after_write (hne : d.placeOf path ≠ d.placeOf temp)
    (hwrite : d.write temp bytes = .ok d₁) (hmove : d₁.rename temp path = .ok d₂) :
    d.Frame {d.placeOf temp, d.placeOf path} d₂ ∧ d₂.file? (d.placeOf temp) = none ∧
      d₂.find path = .ok (d.placeOf path, .file bytes) := by
  obtain ⟨hproper, hfree, hput, hfind⟩ := write_eq_ok hwrite
  have hkeeps : d.Keeps d₁ := by
    rw [hput]
    exact keeps_put hproper hfree
  obtain ⟨content, hsource, -, hproper', hgoal, hmoved, hfound⟩ := rename_eq_ok hmove
  rw [hkeeps.placeOf] at hsource hproper' hgoal hmoved hfound
  rw [hkeeps.placeOf] at hmoved
  obtain rfl : content = bytes := by
    have hnode := (find_eq_file hfind).2.1
    rw [hsource] at hnode
    simpa using hnode
  have hfiles : ∀ q, q ≠ d.placeOf path → d₂.file? q =
      if q = d.placeOf temp then none else d₁.file? q := by
    intro q hq
    rw [hmoved, file?_put hproper', if_neg hq, file?_erase hproper]
  have hgoal' : (d₁.erase (d.placeOf temp)).node? (d.placeOf path) ≠ some .directory := by
    rw [node?_erase hproper, if_neg hne]
    exact hgoal
  refine ⟨⟨?_, ?_⟩, ?_, hfound⟩
  · rw [hmoved]
    exact (hkeeps.trans (keeps_erase hproper (by simp [hsource]))).trans (keeps_put hproper' hgoal')
  · intro q hq
    simp only [Set.mem_insert_iff, Set.mem_singleton_iff, not_or] at hq
    rw [hfiles q hq.2, if_neg hq.1, hput, file?_put hproper, if_neg hq.1]
  · rw [hfiles _ (Ne.symm hne), if_pos rfl]

end
end Disk

/-! ## Saving -/

namespace Store
open Disk

/-- Where the file of a module lies. -/
def placeOn (s : Store) (d : Disk) (module : String) : Place := d.placeOf (s.pathFor module)

/-- Where the temporary file of a module lies. -/
def tempOn (s : Store) (d : Disk) (module : String) : Place :=
  d.placeOf (Disk.host.temporary (s.pathFor module))

/-- A record was not saved: no file has changed, but a file in the place of the temporary one may be
gone. -/
structure Unsaved (s : Store) (module : String) (d d' : Disk) : Prop where
  frame : d.Frame {s.tempOn d module} d'
  spent : d'.file? (s.tempOn d module) = none ∨
    d'.file? (s.tempOn d module) = d.file? (s.tempOn d module)

/-- A record was saved. -/
structure Saved (s : Store) (module : String) (bytes : List UInt8) (d d' : Disk) : Prop where
  frame : d.Frame {s.tempOn d module, s.placeOn d module} d'
  spent : d'.file? (s.tempOn d module) = none
  found : d'.find (s.pathFor module) = .ok (s.placeOn d module, .file bytes)

theorem placeOn_eq (s : Store) (d : Disk) {module : String} (hm : '/' ∉ module.toList) :
    s.placeOn d module = d.placeOf s.root ++ [fileName module] := placeOf_pathFor d s hm

theorem tempOn_eq (s : Store) (d : Disk) {module : String} (hm : '/' ∉ module.toList) :
    s.tempOn d module = d.placeOf s.root ++ [tempName host.tag module] := placeOf_temporary d s hm

theorem placeOn_ne_tempOn (s : Store) (d : Disk) {a b : String} (ha : Path.IsComponent a)
    (hb : Path.IsComponent b) (other : Store) : s.placeOn d a ≠ other.tempOn d b := by
  rw [s.placeOn_eq d ha.noSlash, other.tempOn_eq d hb.noSlash]
  intro h
  exact fileName_ne_tempName a b _ (List.append_inj_right' h rfl |> List.singleton_inj.mp)

/-- Files of different modules lie at different places, in whatever stores. -/
theorem placeOn_inj {s other : Store} {d : Disk} {a b : String} (ha : '/' ∉ a.toList)
    (hb : '/' ∉ b.toList) (h : s.placeOn d a = other.placeOn d b) : a = b := by
  rw [s.placeOn_eq d ha, other.placeOn_eq d hb] at h
  exact fileName_inj (List.append_inj_right' h rfl |> List.singleton_inj.mp)

/-- A module with any name has two places for its file and its temporary file. -/
theorem placeOn_ne_own_tempOn (s : Store) (d : Disk) (module : String) :
    s.placeOn d module ≠ s.tempOn d module := by
  obtain ⟨dir, last, hplace, htemp⟩ := placeOf_beside d s module
  unfold placeOn tempOn
  rw [hplace, htemp]
  intro h
  exact fileName_ne_tempName last last _ (List.append_inj_right' h rfl |> List.singleton_inj.mp)

theorem replace_eq {s : Store} {module : String} {bytes : List UInt8} {w w' : World}
    {r : Except FileError Unit}
    (h : (Disk.host.replace (s.pathFor module) bytes).run w = (r, w')) :
    (∃ e, r = .error e ∧ s.Unsaved module w.disk w'.disk) ∨
      r = .ok () ∧ s.Saved module bytes w.disk w'.disk := by
  unfold Host.replace at h
  obtain ⟨written, w₁, hwrite, h⟩ := run_bind_eq h
  rcases disturbed_eq hwrite with ⟨e, rfl, hdisk⟩ | ⟨rfl, hwritten⟩
  · obtain ⟨rfl, rfl⟩ := run_pure_eq h
    refine .inl ⟨e, rfl, ?_, .inr (by rw [hdisk])⟩
    rw [hdisk]
    exact .refl _ _
  obtain ⟨moved, w₂, hmove, h⟩ := run_bind_eq h
  rcases disturbed_eq hmove with ⟨e, rfl, hdisk⟩ | ⟨rfl, hmoved⟩
  -- The temporary file is there and has to go.
  · dsimp only at h
    obtain ⟨removed, w₃, hremove, h⟩ := run_bind_eq h
    obtain ⟨rfl, rfl⟩ := run_pure_eq h
    have hfind := (write_eq_ok hwritten).2.2.2
    rw [← hdisk] at hfind
    obtain ⟨hframe, hspent⟩ := erase_after_write hwritten
    rw [← hdisk, ← remove_eq hfind hremove] at hframe hspent
    exact .inl ⟨e, rfl, hframe, .inl hspent⟩
  · obtain ⟨rfl, rfl⟩ := run_pure_eq h
    obtain ⟨hframe, hspent, hfound⟩ :=
      rename_after_write (s.placeOn_ne_own_tempOn w.disk module) hwritten hmoved
    exact .inr ⟨rfl, hframe, hspent, hfound⟩

/-- What saving a record comes to, whatever fails or is disturbed on the way. -/
theorem save_eq {s : Store} {module : String} {record : Record} {w w' : World}
    {r : Except Error Path} (h : (s.save Disk.host module record).run w = (r, w')) :
    (∃ e, r = .error e ∧ s.Unsaved module w.disk w'.disk) ∨
      r = .ok (s.pathFor module) ∧ s.Saved module (Archive.encode record) w.disk w'.disk := by
  unfold save at h
  obtain ⟨made, w₁, hmade, h⟩ := run_bind_eq h
  have hdirs := frame_makeDirs hmade
  have htemp : s.tempOn w₁.disk module = s.tempOn w.disk module := hdirs.keeps.placeOf _
  have hplace : s.placeOn w₁.disk module = s.placeOn w.disk module := hdirs.keeps.placeOf _
  have hsame : ∀ q, w₁.disk.file? q = w.disk.file? q := fun q => hdirs.files q (by simp)
  cases made with
  | error e =>
      obtain ⟨rfl, rfl⟩ := run_pure_eq h
      exact .inl ⟨_, rfl, hdirs.mono (Set.empty_subset _), .inr (hsame _)⟩
  | ok u =>
      dsimp only at h
      obtain ⟨replaced, w₂, hreplace, h⟩ := run_bind_eq h
      rcases replace_eq hreplace with ⟨e, rfl, hunsaved⟩ | ⟨rfl, hsaved⟩
      · obtain ⟨rfl, rfl⟩ := run_pure_eq h
        have hframe := hunsaved.frame
        have hspent := hunsaved.spent
        rw [htemp] at hframe hspent
        rw [hsame] at hspent
        exact .inl ⟨_, rfl, (hdirs.mono (Set.empty_subset _)).trans hframe, hspent⟩
      · obtain ⟨rfl, rfl⟩ := run_pure_eq h
        obtain ⟨hframe, hspent, hfound⟩ := hsaved
        rw [htemp, hplace] at hframe
        rw [htemp] at hspent
        rw [hplace] at hfound
        exact .inr ⟨rfl, (hdirs.mono (Set.empty_subset _)).trans hframe, hspent, hfound⟩

/-! ## Loading -/

/-- The record that a store has for a module, if it can be read. -/
def stored? (s : Store) (d : Disk) (module : String) : Option Record :=
  match d.read (s.pathFor module) with
  | .ok bytes => (Archive.decode bytes).toOption
  | .error _ => none

theorem read_eq_ok {d : Disk} {p : Path} {bytes : List UInt8} :
    d.read p = .ok bytes ↔ d.find p = .ok (d.placeOf p, .file bytes) := by
  unfold Disk.read
  constructor
  · intro h
    cases hfind : d.find p with
    | error e => simp [hfind, bind, Except.bind] at h
    | ok found =>
        obtain ⟨place, n⟩ := found
        cases n with
        | directory => simp [hfind, bind, Except.bind] at h
        | file content =>
            obtain rfl : content = bytes := by
              simpa [hfind, bind, Except.bind, pure, Except.pure] using h
            rw [(find_eq_file hfind).1.placed]
  · intro h
    simp [h, bind, Except.bind, pure, Except.pure]

theorem read_of_find {d : Disk} {p : Path} {place : Place} {bytes : List UInt8}
    (h : d.find p = .ok (place, .file bytes)) : d.read p = .ok bytes := by
  rw [read_eq_ok, h, (find_eq_file h).1.placed]

theorem stored?_eq_some {s : Store} {d : Disk} {module : String} {r : Record} :
    s.stored? d module = some r ↔ ∃ bytes,
      d.find (s.pathFor module) = .ok (s.placeOn d module, .file bytes) ∧
      Archive.decode bytes = .ok r := by
  unfold stored? placeOn
  constructor
  · intro h
    split at h
    · rename_i bytes hread
      refine ⟨bytes, read_eq_ok.mp hread, ?_⟩
      cases hdecode : Archive.decode bytes with
      | error e => simp [hdecode, Except.toOption] at h
      | ok r' => simpa [hdecode, Except.toOption] using h
    · cases h
  · rintro ⟨bytes, hfind, hdecode⟩
    rw [read_eq_ok.mpr hfind]
    simp [hdecode, Except.toOption]

theorem load_of_read {s : Store} {module : String} {w : World} {bytes : List UInt8}
    (h : w.disk.read (s.pathFor module) = .ok bytes) :
    (s.load host module).run w = (match Archive.decode bytes with
      | .ok r => .ok (some r)
      | .error e => .error (.codec module e), w) := by
  have hread : (host.read (s.pathFor module)).run w = (.ok bytes, w) := by
    rw [← h]
    rfl
  unfold load
  rw [run_bind_of hread]
  cases hdecode : Archive.decode bytes with
  | ok r =>
      dsimp only
      rw [hdecode]
      rfl
  | error e =>
      dsimp only
      rw [hdecode]
      rfl

/-- The path of a store leads to its directory part by part, or no module has a file in it yet. A
store whose directory is still to be made is ready; one whose path goes through a directory that is
missing and back out by two dots, to a directory with files, is not. Runs are described from stores
that are ready when they start. -/
def Ready (s : Store) (d : Disk) : Prop :=
  d.descend (if s.root.isAbsolute then [] else d.working) s.root.rawParts = .ok (d.placeOf s.root) ∨
    ∀ module, Path.IsComponent module → d.file? (s.placeOn d module) = none

theorem leads_of_descend {s : Store} {d : Disk} {module : String} (hm : Path.IsComponent module)
    (h : d.descend (if s.root.isAbsolute then [] else d.working) s.root.rawParts =
      .ok (d.placeOf s.root))
    (hcheck : checkPath (s.pathFor module) = .ok ()) (hname : Ordinary (fileName module)) :
    d.Leads (s.pathFor module) (s.placeOn d module) := by
  have hlocate : d.locate (s.pathFor module) = .ok (d.placeOf s.root, some (fileName module)) := by
    refine locate_eq_ok.mpr ⟨hcheck, ?_, ?_⟩
    · rw [rawParts_pathFor s hm.noSlash, isAbsolute_pathFor s hm.noSlash, List.dropLast_concat, h]
    · rw [rawParts_pathFor s hm.noSlash, List.getLast?_concat]
  have hleads := leads_of_locate hlocate hname
  rwa [← placeOf_pathFor d s hm.noSlash] at hleads

/-- Where a store was ready, only a change to the file of a module changes what is loaded. -/
theorem Ready.stored? {s : Store} {d d' : Disk} {module : String} (hready : s.Ready d)
    (hm : Path.IsComponent module) (hk : d.Keeps d')
    (hfile : d'.file? (s.placeOn d module) = d.file? (s.placeOn d module)) :
    s.stored? d' module = s.stored? d module := by
  have hplace : s.placeOn d' module = s.placeOn d module := hk.placeOf _
  apply Option.ext
  intro r
  simp only [stored?_eq_some, hplace]
  apply exists_congr
  intro bytes
  constructor
  · rintro ⟨hfind, hdecode⟩
    refine ⟨?_, hdecode⟩
    obtain ⟨⟨-, -, dir, part, hlocate, hpart, -⟩, hnode, hslash⟩ := find_eq_file hfind
    have hthere : d.file? (s.placeOn d module) = some bytes := by
      rw [← hfile, file?_eq_some, hnode]
    rcases hready with hdescend | hempty
    · obtain ⟨hcheck, -, hlast⟩ := locate_eq_ok.mp hlocate
      obtain rfl : fileName module = part := by
        rw [rawParts_pathFor s hm.noSlash, List.getLast?_concat] at hlast
        exact Option.some.inj hlast
      exact (leads_of_descend hm hdescend hcheck hpart).find (.refl d) hslash
        (file?_eq_some.mp hthere)
    · rw [hempty module hm] at hthere
      cases hthere
  · rintro ⟨hfind, hdecode⟩
    obtain ⟨hleads, hnode, hslash⟩ := find_eq_file hfind
    have hthere : d'.file? (s.placeOn d module) = some bytes := by
      rw [hfile, file?_eq_some, hnode]
    exact ⟨hleads.find hk hslash (file?_eq_some.mp hthere), hdecode⟩

end Store
end CompletionDb
