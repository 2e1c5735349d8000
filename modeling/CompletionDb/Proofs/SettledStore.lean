import CompletionDb.Proofs.StoreDirectory

/-!
# Saving where the directory is there

If nothing disturbs it, saving a record in a directory that is there has an outcome that can be told
beforehand. The paths of the file and of the temporary one may be refused, for their lengths or
because a directory is in the way; if not, the record is saved. What the files hold plays no part in
this. So modules do not get in each other's way.

Where nothing is due to go wrong, nothing is after any of the operations either (`Calm`), so this
goes on over a whole run.
-/
namespace CompletionDb

namespace Disk

/-! ## Disks with the same directories -/

structure SameDirs (d d' : Disk) : Prop where
  working : d'.working = d.working
  directory : ∀ p, d'.node? p = some .directory ↔ d.node? p = some .directory

section
variable {d d₁ d₂ : Disk}

theorem SameDirs.refl (d : Disk) : d.SameDirs d := ⟨rfl, fun _ => Iff.rfl⟩

theorem SameDirs.symm (h : d.SameDirs d₁) : d₁.SameDirs d :=
  ⟨h.working.symm, fun p => (h.directory p).symm⟩

theorem SameDirs.trans (h₁ : d.SameDirs d₁) (h₂ : d₁.SameDirs d₂) : d.SameDirs d₂ :=
  ⟨h₂.working.trans h₁.working, fun p => (h₂.directory p).trans (h₁.directory p)⟩

theorem SameDirs.keeps (h : d.SameDirs d₁) : d.Keeps d₁ :=
  ⟨h.working, fun p hp => (h.directory p).mpr hp⟩

end

/-! ## Names in a directory -/

/-- A path to a name in a directory that is there. -/
structure Inside (d : Disk) (dir : Place) (name : String) (p : Path) : Prop where
  located : checkPath p = .ok () → d.locate p = .ok (dir, some name)
  ordinary : name ≠ "." ∧ name ≠ ".."
  noSlash : p.endsWithSlash = false

/-- What keeps a file from being put in a directory. -/
def refusal? (d : Disk) (dir : Place) (name : String) (p : Path) : Option FileError :=
  match checkPath p with
  | .error e => some e
  | .ok () =>
    if maxNameSize < name.utf8ByteSize then some .nameTooLong
    else if d.node? (dir ++ [name]) = some .directory then some .isDirectory
    else none

section
variable {d d' : Disk} {dir : Place} {name : String} {p : Path}

theorem refusal?_congr (h : d'.node? (dir ++ [name]) = some .directory ↔
    d.node? (dir ++ [name]) = some .directory) (p : Path) :
    d'.refusal? dir name p = d.refusal? dir name p := by
  unfold Disk.refusal?
  simp only [h]

theorem not_directory_of_refusal? (h : d.refusal? dir name p = none) :
    d.node? (dir ++ [name]) ≠ some .directory := by
  unfold Disk.refusal? at h
  split at h
  · cases h
  · split_ifs at h with hlong hdir
    exact hdir

theorem Inside.target (h : d.Inside dir name p) (hcheck : checkPath p = .ok ()) :
    d.target p =
      if maxNameSize < name.utf8ByteSize then .error .nameTooLong
      else .ok (dir ++ [name], d.node? (dir ++ [name])) :=
  target_of_locate (h.located hcheck) h.ordinary

theorem Inside.write (h : d.Inside dir name p) (bytes : List UInt8) :
    d.write p bytes =
      match d.refusal? dir name p with
      | some e => .error e
      | none => .ok (d.put (dir ++ [name]) (.file bytes)) := by
  unfold Disk.write Disk.refusal?
  cases hcheck : checkPath p with
  | error e => simp [locate_of_checkPath hcheck, bind, Except.bind]
  | ok u =>
      simp only [h.located hcheck, h.noSlash, h.target hcheck, bind, Except.bind]
      by_cases hlong : maxNameSize < name.utf8ByteSize
      · simp [hlong]
      · cases hnode : d.node? (dir ++ [name]) with
        | none => simp [hlong, pure, Except.pure]
        | some n => cases n <;> simp [hlong, pure, Except.pure]

theorem Inside.rename (h : d.Inside dir name p) {source : Path} {place : Place}
    {bytes : List UInt8} (hsource : d.find source = .ok (place, .file bytes)) :
    d.rename source p =
      match d.refusal? dir name p with
      | some e => .error e
      | none => .ok ((d.erase place).put (dir ++ [name]) (.file bytes)) := by
  unfold Disk.rename Disk.refusal?
  cases hcheck : checkPath p with
  | error e => simp [hsource, Disk.target, locate_of_checkPath hcheck, bind, Except.bind]
  | ok u =>
      simp only [hsource, h.noSlash, h.target hcheck, bind, Except.bind]
      by_cases hlong : maxNameSize < name.utf8ByteSize
      · simp [hlong]
      · cases hnode : d.node? (dir ++ [name]) with
        | none => simp [hlong, pure, Except.pure]
        | some n => cases n <;> simp [hlong, pure, Except.pure]

theorem change_of_ok {op : Disk → Except FileError Disk} {w : World} (h : op w.disk = .ok d) :
    (change op).run w = (.ok (), { w with disk := d }) := by
  simp [change, StateT.run, h]

theorem disturbed_of_ok {op : Disk → Except FileError Disk} {w : World} (hfaults : w.faults = [])
    (h : op w.disk = .ok d) : (disturbed op).run w = (.ok (), { w with disk := d }) := by
  simp [disturbed, change, StateT.run, hfaults, h]

theorem disturbed_of_error {op : Disk → Except FileError Disk} {w : World} {e : FileError}
    (hfaults : w.faults = []) (h : op w.disk = .error e) :
    (disturbed op).run w = (.error e, w) := by
  simp [disturbed, change, StateT.run, hfaults, h]

@[simp] theorem working_put (d : Disk) (p : Place) (n : Node) :
    (d.put p n).working = d.working := rfl

@[simp] theorem working_erase (d : Disk) (p : Place) : (d.erase p).working = d.working := rfl

end
end Disk

namespace Store
open Disk

section
variable {s : Store} {d d' : Disk} {module : String} {w : World}

theorem Settled.inside_pathFor (h : s.Settled d) (hm : Path.IsComponent module) :
    d.Inside (d.placeOf s.root) (fileName module) (s.pathFor module) :=
  ⟨h.locate_pathFor hm, fileName_ne_dots module, endsWithSlash_pathFor s hm⟩

theorem Settled.inside_temporary (h : s.Settled d) (hm : Path.IsComponent module) :
    d.Inside (d.placeOf s.root) (tempName host.tag module) (host.temporary (s.pathFor module)) := by
  have hname : Path.IsComponent (tempName host.tag module) :=
    isComponent_tempName (by decide) hm.noSlash
  have hparts : ∀ part ∈ s.root.parts, Path.IsComponent part :=
    fun _ => Path.isComponent_of_mem_parts
  rw [temporary_pathFor host s hm.noSlash]
  refine ⟨fun hcheck => ?_, tempName_ne_dots _ _, Path.endsWithSlash_join _ hname⟩
  rw [locate_eq_ok, Path.rawParts_join hname, Path.isAbsolute_join hname,
    Path.rawParts_ofParts _ hparts, Path.isAbsolute_ofParts _ hparts, List.dropLast_concat,
    List.getLast?_concat, descend_parts]
  exact ⟨hcheck, h.descends, rfl⟩

/-! ## What a save does -/

/-- What keeps the temporary file of a module from being written. -/
def tempRefusal? (s : Store) (d : Disk) (module : String) : Option FileError :=
  d.refusal? (d.placeOf s.root) (tempName host.tag module) (host.temporary (s.pathFor module))

/-- What keeps it from being moved in place. -/
def moveRefusal? (s : Store) (d : Disk) (module : String) : Option FileError :=
  d.refusal? (d.placeOf s.root) (fileName module) (s.pathFor module)

/-- What keeps a record from being saved. -/
def refusal? (s : Store) (d : Disk) (module : String) : Option FileError :=
  (s.tempRefusal? d module).or (s.moveRefusal? d module)

/-- The disk after an attempt to save a record. -/
def replaced (s : Store) (d : Disk) (module : String) (bytes : List UInt8) : Disk :=
  let temp := s.tempOn d module
  if s.tempRefusal? d module ≠ none then d
  else if s.moveRefusal? d module ≠ none then (d.put temp (.file bytes)).erase temp
  else ((d.put temp (.file bytes)).erase temp).put (s.placeOn d module) (.file bytes)

theorem tempRefusal?_of_sameDirs (h : d.SameDirs d') (s : Store) (module : String) :
    s.tempRefusal? d' module = s.tempRefusal? d module := by
  unfold tempRefusal?
  rw [h.keeps.placeOf]
  exact refusal?_congr (h.directory _) _

theorem moveRefusal?_of_sameDirs (h : d.SameDirs d') (s : Store) (module : String) :
    s.moveRefusal? d' module = s.moveRefusal? d module := by
  unfold moveRefusal?
  rw [h.keeps.placeOf]
  exact refusal?_congr (h.directory _) _

theorem refusal?_of_sameDirs (h : d.SameDirs d') (s : Store) (module : String) :
    s.refusal? d' module = s.refusal? d module := by
  unfold refusal?
  rw [tempRefusal?_of_sameDirs h, moveRefusal?_of_sameDirs h]

/-- The nodes after an attempt to save a record. -/
theorem node?_replaced (hm : Path.IsComponent module) (bytes : List UInt8) (q : Place) :
    (s.replaced d module bytes).node? q =
      if q = s.placeOn d module ∧ s.refusal? d module = none then some (.file bytes)
      else if q = s.tempOn d module ∧ s.tempRefusal? d module = none then none
      else d.node? q := by
  have hplace : s.placeOn d module ≠ [] := by simp [placeOn_eq s d hm.noSlash]
  have htemp : s.tempOn d module ≠ [] := by simp [tempOn_eq s d hm.noSlash]
  have hne := s.placeOn_ne_tempOn d hm hm s
  unfold replaced refusal?
  cases s.tempRefusal? d module with
  | some e => simp
  | none =>
      cases s.moveRefusal? d module with
      | some e =>
          simp only [ne_eq, not_true_eq_false, if_false, reduceCtorEq, not_false_eq_true, if_true,
            Option.none_or, and_false, and_true]
          rw [node?_erase htemp, node?_put htemp]
          split_ifs <;> rfl
      | none =>
          simp only [ne_eq, not_true_eq_false, if_false, Option.none_or, and_true]
          rw [node?_put hplace, node?_erase htemp, node?_put htemp]
          split_ifs <;> rfl

theorem sameDirs_replaced (hm : Path.IsComponent module) (bytes : List UInt8) :
    d.SameDirs (s.replaced d module bytes) := by
  refine ⟨?_, fun q => ?_⟩
  · simp only [replaced, apply_ite Disk.working, working_put, working_erase, ite_self]
  · rw [node?_replaced hm]
    split_ifs with hsaved hspent
    · have hrefused := hsaved.2
      rw [refusal?, Option.or_eq_none_iff, moveRefusal?] at hrefused
      have hfree := not_directory_of_refusal? hrefused.2
      rw [← placeOn_eq s d hm.noSlash, ← hsaved.1] at hfree
      simpa using hfree
    · have hrefused := hspent.2
      rw [tempRefusal?] at hrefused
      have hfree := not_directory_of_refusal? hrefused
      rw [← tempOn_eq s d hm.noSlash, ← hspent.1] at hfree
      simpa using hfree
    · exact Iff.rfl

/-- The path of a module while its temporary file is there. -/
theorem Settled.inside_after (h : s.Settled d) (hm : Path.IsComponent module)
    (hfree : d.node? (s.tempOn d module) ≠ some .directory) (bytes : List UInt8) :
    (d.put (s.tempOn d module) (.file bytes)).Inside (d.placeOf s.root) (fileName module)
      (s.pathFor module) := by
  have htemp : s.tempOn d module ≠ [] := by simp [tempOn_eq s d hm.noSlash]
  exact (h.keeps (keeps_put htemp hfree)).inside_pathFor hm

theorem moveRefusal?_put (hm : Path.IsComponent module) (n : Node) :
    (d.put (s.tempOn d module) n).refusal? (d.placeOf s.root) (fileName module)
      (s.pathFor module) = s.moveRefusal? d module := by
  have htemp : s.tempOn d module ≠ [] := by simp [tempOn_eq s d hm.noSlash]
  have hne := s.placeOn_ne_tempOn d hm hm s
  rw [placeOn_eq s d hm.noSlash] at hne
  unfold moveRefusal?
  apply refusal?_congr
  rw [node?_put htemp, if_neg hne]

theorem replace_settled (h : s.Settled w.disk) (hm : Path.IsComponent module)
    (hfaults : w.faults = []) (bytes : List UInt8) :
    (host.replace (s.pathFor module) bytes).run w =
      (match s.refusal? w.disk module with
        | some e => .error e
        | none => .ok (),
      { w with disk := s.replaced w.disk module bytes }) := by
  have hwrite := (h.inside_temporary hm).write bytes
  rw [← tempRefusal?, ← tempOn_eq s w.disk hm.noSlash] at hwrite
  unfold Host.replace
  cases htemp : s.tempRefusal? w.disk module with
  | some e =>
      rw [htemp] at hwrite
      have hrun : (host.write (host.temporary (s.pathFor module)) bytes).run w = (.error e, w) :=
        disturbed_of_error hfaults hwrite
      rw [run_bind_of hrun, refusal?, replaced, htemp, if_pos (by simp)]
      rfl
  | none =>
      rw [htemp] at hwrite
      have hfree := (write_eq_ok hwrite).2.1
      have hfind := (write_eq_ok hwrite).2.2.2
      rw [← tempOn] at hfree hfind
      have hmove := (h.inside_after hm hfree bytes).rename hfind
      rw [moveRefusal?_put hm] at hmove
      generalize hw₁ : { w with disk := w.disk.put (s.tempOn w.disk module) (.file bytes) } = w₁
      have hrun : (host.write (host.temporary (s.pathFor module)) bytes).run w = (.ok (), w₁) := by
        rw [← hw₁]
        exact disturbed_of_ok hfaults hwrite
      have hfaults₁ : w₁.faults = [] := by
        rw [← hw₁]
        exact hfaults
      have hdisk₁ : w₁.disk = w.disk.put (s.tempOn w.disk module) (.file bytes) := by
        rw [← hw₁]
      rw [run_bind_of hrun, refusal?, replaced, htemp, if_neg (by simp), Option.none_or]
      dsimp only
      cases hrefused : s.moveRefusal? w.disk module with
      | some e =>
          rw [hrefused, ← hdisk₁] at hmove
          rw [← hdisk₁] at hfind
          have hmoved : (host.rename (host.temporary (s.pathFor module)) (s.pathFor module)).run
              w₁ = (.error e, w₁) := disturbed_of_error hfaults₁ hmove
          have hremoved : (host.remove (host.temporary (s.pathFor module))).run w₁ =
              (.ok (), { w₁ with disk := w₁.disk.erase (s.tempOn w.disk module) }) := by
            rw [host_remove]
            exact change_of_ok (remove_of_find hfind)
          rw [run_bind_of hmoved]
          dsimp only
          rw [run_bind_of hremoved, if_pos (by simp), ← hdisk₁, ← hw₁]
          rfl
      | none =>
          rw [hrefused, ← hdisk₁, ← placeOn_eq s _ hm.noSlash] at hmove
          generalize hd₂ : (w₁.disk.erase (s.tempOn w.disk module)).put (s.placeOn w.disk module)
            (.file bytes) = d₂ at hmove
          have hmoved : (host.rename (host.temporary (s.pathFor module)) (s.pathFor module)).run
              w₁ = (.ok (), { w₁ with disk := d₂ }) := disturbed_of_ok hfaults₁ hmove
          rw [run_bind_of hmoved, if_neg (by simp), ← hdisk₁, hd₂, ← hw₁]
          rfl

theorem makeDirs_settled (h : s.Settled w.disk) (hfaults : w.faults = []) :
    (host.makeDirs s.root).run w = (.ok (), w) := by
  unfold Host.makeDirs
  split_ifs with hempty
  · rfl
  · have hfind := h.find_root (by simpa using hempty)
    have hmake : (host.makeDir s.root).run w = (.error .alreadyExists, w) :=
      disturbed_of_error hfaults (makeDir_of_find hfind)
    have hdir : (host.isDir s.root).run w = (true, w) := by
      have : w.disk.isDir s.root = true := by rw [isDir, hfind]
      rw [← this]
      rfl
    rw [Path.chain, Host.makeChain, run_bind_of hmake]
    dsimp only
    rw [run_bind_of hdir]
    rfl

/-- A save in a directory that is there, with nothing to disturb it. -/
theorem save_settled (h : s.Settled w.disk) (hm : Path.IsComponent module)
    (hfaults : w.faults = []) (record : Record) :
    (s.save host module record).run w =
      (match s.refusal? w.disk module with
        | some e => .error (.io (s.pathFor module) e)
        | none => .ok (s.pathFor module),
      { w with disk := s.replaced w.disk module (Archive.encode record) }) := by
  unfold save
  rw [run_bind_of (makeDirs_settled h hfaults)]
  dsimp only
  rw [run_bind_of (replace_settled h hm hfaults _)]
  cases s.refusal? w.disk module <;> rfl

end

-- Only the lemmas above are used from here on; comparing paths by evaluating them takes long.
attribute [irreducible] tempRefusal? moveRefusal? refusal? replaced

end Store

/-! ## Undisturbed surroundings -/

namespace Disk

/-- A computation that is not disturbed leaves nothing behind that disturbs the next one. -/
def Calm {α : Type} (x : StateM World α) : Prop :=
  ∀ w, w.faults = [] → (x.run w).2.faults = []

section
variable {α β : Type}

theorem Calm.faults {x : StateM World α} (hx : Calm x) {a : α} {w w' : World}
    (h : x.run w = (a, w')) (hw : w.faults = []) : w'.faults = [] := by
  have hnext := hx w hw
  rwa [h] at hnext

theorem calm_pure (a : α) : Calm (pure a : StateM World α) := fun _ hw => hw

theorem calm_bind {x : StateM World α} {f : α → StateM World β} (hx : Calm x)
    (hf : ∀ a, Calm (f a)) : Calm (x >>= f) := fun w hw => hf _ _ (hx w hw)

/-- Questions and log lines. -/
theorem calm_ask (f : World → α) (log : World → List LogLine) :
    Calm (fun w => (f w, { w with log := log w }) : StateM World α) := fun _ hw => hw

theorem calm_change (op : Disk → Except FileError Disk) : Calm (change op) := by
  intro w hw
  unfold change
  cases hop : op w.disk with
  | ok d => simpa [StateT.run, hop] using hw
  | error e => simpa [StateT.run, hop] using hw

theorem calm_disturbed (op : Disk → Except FileError Disk) : Calm (disturbed op) := by
  intro w hw
  have hchange := calm_change op w hw
  simpa [disturbed, StateT.run, hw] using hchange

theorem calm_makeChain (paths : List Path) : Calm (host.makeChain paths) := by
  induction paths with
  | nil => exact calm_pure _
  | cons path parents ih =>
      have hagain : ∀ e, Calm (do return if ← host.isDir path then .ok () else .error e :
          StateM World (Except FileError Unit)) := fun e =>
        calm_bind (calm_ask (·.disk.isDir path) (·.log)) fun _ => calm_pure _
      rw [Host.makeChain]
      apply calm_bind (calm_disturbed _)
      intro made
      split
      · exact calm_pure _
      · apply calm_bind ih
        intro above
        split
        · exact calm_pure _
        · apply calm_bind (calm_disturbed _)
          intro again
          split
          · exact calm_pure _
          · exact hagain _
      · exact hagain _

theorem calm_remove (path : Path) : Calm (host.remove path) := calm_change (·.remove path)

theorem calm_replace (path : Path) (bytes : List UInt8) : Calm (host.replace path bytes) := by
  unfold Host.replace
  apply calm_bind (calm_disturbed _)
  intro written
  split
  · exact calm_pure _
  · apply calm_bind (calm_disturbed _)
    intro moved
    split
    · exact calm_pure _
    · exact calm_bind (calm_remove _) fun _ => calm_pure _

theorem calm_save (s : Store) (module : String) (record : Record) :
    Calm (s.save host module record) := by
  unfold Store.save Host.makeDirs
  apply calm_bind
  · split_ifs
    · exact calm_pure _
    · exact calm_makeChain _
  · intro made
    split
    · exact calm_pure _
    · apply calm_bind (calm_replace _ _)
      intro replaced
      split <;> exact calm_pure _

theorem calm_load (s : Store) (module : String) : Calm (s.load host module) := by
  unfold Store.load
  apply calm_bind (calm_ask (·.disk.read (s.pathFor module)) (·.log))
  intro content
  split
  · exact calm_pure _
  · exact calm_pure _
  · split <;> exact calm_pure _

theorem calm_log (line : LogLine) : Calm (host.log line) := calm_ask (fun _ => ()) (line :: ·.log)

theorem calm_logAll (lines : List LogLine) : Calm (host.logAll lines) := by
  induction lines with
  | nil => exact calm_pure _
  | cons line lines ih => exact calm_bind (calm_log line) fun _ => ih

end
end Disk
end CompletionDb
