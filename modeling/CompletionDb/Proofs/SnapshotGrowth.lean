import CompletionDb.Extraction.Provider
import CompletionDb.Proofs.AncestorSearch
import CompletionDb.Proofs.Tables
import CompletionDb.Snapshot.Fault

/-!
# Snapshots that grow

What is extracted for an object depends on the objects that it leads to and on nothing else. So two
snapshots give the same entries for some objects if they say the same of them, and if these objects
refer to each other only; `AgreeOn` is that condition, and every query and every recursion of the
extraction is carried through it once.

A snapshot that passes its check refers to its own objects only. With more objects and modules, and
the same well-known types, it says the same of those it had. The queries answer for unknown ids as
well: without the check an object that is added could turn such an answer into another one.
-/
namespace CompletionDb

/-! ## Ancestors in two hierarchies -/

namespace Hierarchy
variable {α : Type} [DecidableEq α]

/-- Among classes that have each other as bases and no others, and the same ones in two hierarchies,
the search goes the same way in both and does not leave them. -/
theorem ancestorsFrom_of_closed {h h' : Hierarchy α} {known : α → Prop}
    (hsame : ∀ cls, known cls → h'.bases cls = h.bases cls)
    (hbases : ∀ cls, known cls → ∀ base ∈ h.bases cls, known base)
    (expanded collected pending : List α) (hpending : ∀ cls ∈ pending, known cls) :
    ancestorsFrom h' expanded collected pending = ancestorsFrom h expanded collected pending ∧
      ∀ a ∈ ancestorsFrom h expanded collected pending, a ∈ collected ∨ known a := by
  induction expanded, collected, pending using ancestorsFrom.induct h with
  | case1 expanded collected =>
      rw [ancestorsFrom, ancestorsFrom]
      exact ⟨rfl, fun a ha => .inl ha⟩
  | case2 expanded collected cls pending hmem ih =>
      rw [ancestorsFrom, ancestorsFrom, if_pos hmem, if_pos hmem]
      exact ih fun c hc => hpending c (List.mem_cons_of_mem _ hc)
  | case3 expanded collected cls pending hnew ih =>
      have hcls : known cls := hpending cls List.mem_cons_self
      have hnext : ∀ c ∈ h.bases cls ++ pending, known c := by
        intro c hc
        rcases List.mem_append.mp hc with hc | hc
        · exact hbases cls hcls c hc
        · exact hpending c (List.mem_cons_of_mem _ hc)
      rcases ih hnext with ⟨heq, hmem⟩
      rw [ancestorsFrom, ancestorsFrom, if_neg hnew, if_neg hnew, hsame cls hcls]
      refine ⟨heq, fun a ha => ?_⟩
      rcases hmem a ha with ha | ha
      · rcases mem_addNew.mp ha with ha | ha
        · exact .inl ha
        · exact .inr (hbases cls hcls a ha)
      · exact .inr ha

end Hierarchy

/-! ## Queries in two snapshots -/

namespace Snapshot
variable {s s' : Snapshot} {known : Id → Prop} {id : Id}

/-- Two snapshots have the same well-known types and say the same of some objects, these among
them, which refer to each other only. -/
structure AgreeOn (known : Id → Prop) (s s' : Snapshot) : Prop where
  wellKnown : s'.wellKnown = s.wellKnown
  object? : ∀ id, known id → s'.object? id = s.object? id
  named : ∀ p ∈ s.wellKnown.named, known p.2
  references : ∀ id o, known id → s.object? id = some o → ∀ next ∈ o.references, known next

/-- The declared bases of the listed objects are the hierarchy. -/
@[simp] theorem bases_hierarchy (s : Snapshot) (id : Id) : s.hierarchy.bases id = s.bases id :=
  congrArg (Option.getD · []) (Table.find?_map (fun _ o => Object.bases o) s.objects id)

namespace AgreeOn
variable (h : s.AgreeOn known s') (hid : known id)
include h hid

theorem category : s'.category id = s.category id := by
  unfold Snapshot.category
  rw [h.object? id hid]

theorem typeName : s'.typeName id = s.typeName id := by
  unfold Snapshot.typeName
  rw [h.object? id hid]

theorem typeOf : s'.typeOf id = s.typeOf id := by
  unfold Snapshot.typeOf
  rw [h.object? id hid, h.wellKnown]

theorem doc : s'.doc id = s.doc id := by
  unfold Snapshot.doc
  rw [h.object? id hid]

theorem nativeMro : s'.nativeMro id = s.nativeMro id := by
  unfold Snapshot.nativeMro
  rw [h.object? id hid]

theorem bases : s'.bases id = s.bases id := by
  unfold Snapshot.bases
  rw [h.object? id hid]

theorem members : s'.members id = s.members id := by
  unfold Snapshot.members
  rw [h.object? id hid]

theorem isStatic : s'.isStatic id = s.isStatic id := by
  unfold Snapshot.isStatic
  rw [h.object? id hid]

theorem signatures : s'.signatures id = s.signatures id := by
  unfold Snapshot.signatures
  rw [h.object? id hid]

theorem descriptorType : s'.descriptorType id = s.descriptorType id := by
  unfold Snapshot.descriptorType
  rw [h.object? id hid]

/-! What the queries lead to. -/

theorem known_typeOf : known (s.typeOf id) := by
  have hroot := h.named ("root_object", s.wellKnown.rootObject) (by simp [WellKnown.named])
  have hfunction := h.named ("builtin_function", s.wellKnown.builtinFunction)
    (by simp [WellKnown.named])
  have hmethod := h.named ("builtin_method", s.wellKnown.builtinMethod) (by simp [WellKnown.named])
  unfold Snapshot.typeOf
  cases ho : s.object? id with
  | none => exact hroot
  | some o =>
      dsimp only
      cases htype : o.type with
      | some type => exact h.references id o hid ho type (by simp [Object.references, htype])
      | none =>
          cases o.category with
          | builtinFunction | classMethodDescriptor => exact hfunction
          | builtinMethod | slotWrapper | methodDescriptor => exact hmethod
          | _ => exact hroot

theorem known_bases : ∀ base ∈ s.bases id, known base := by
  intro base hbase
  unfold Snapshot.bases at hbase
  cases ho : s.object? id with
  | none => simp [ho] at hbase
  | some o =>
      rw [ho] at hbase
      have hmem : base ∈ o.bases := hbase
      exact h.references id o hid ho base (by simp [Object.references, hmem])

theorem known_members : ∀ p ∈ s.members id, known p.2 := by
  intro p hp
  unfold Snapshot.members at hp
  cases ho : s.object? id with
  | none => simp [ho] at hp
  | some o =>
      rw [ho] at hp
      have hmem : p.2 ∈ o.members.map Prod.snd := List.mem_map_of_mem hp
      exact h.references id o hid ho p.2 (by simp_all [Object.references])

theorem known_descriptorType {type : Id} (htype : s.descriptorType id = some type) :
    known type := by
  unfold Snapshot.descriptorType at htype
  rcases Option.bind_eq_some_iff.mp htype with ⟨o, ho, htype⟩
  exact h.references id o hid ho type (by simp [Object.references, htype])

theorem known_nativeMro {order : List Id} (horder : s.nativeMro id = some order) :
    ∀ a ∈ order, known a := by
  intro a ha
  unfold Snapshot.nativeMro at horder
  cases ho : s.object? id with
  | none => simp [ho] at horder
  | some o =>
      rw [ho] at horder
      dsimp only at horder
      split at horder
      · rw [← Option.some.inj horder] at ha
        cases hmro : o.mro with
        | none =>
            rw [hmro] at ha
            rw [List.mem_singleton.mp ha]
            exact hid
        | some given =>
            rw [hmro] at ha
            have hmem : a ∈ given := ha
            exact h.references id o hid ho a (by simp [Object.references, hmro, hmem])
      · cases horder

theorem ancestors : s'.hierarchy.ancestors id = s.hierarchy.ancestors id ∧
    ∀ a ∈ s.hierarchy.ancestors id, known a := by
  have hsame : ∀ cls, known cls → s'.hierarchy.bases cls = s.hierarchy.bases cls := by
    intro cls hcls
    simp [h.bases hcls]
  have hbases : ∀ cls, known cls → ∀ base ∈ s.hierarchy.bases cls, known base := by
    intro cls hcls
    simpa using h.known_bases hcls
  have hclosed := Hierarchy.ancestorsFrom_of_closed hsame hbases [] [] [id]
    (fun cls hcls => by rw [List.mem_singleton.mp hcls]; exact hid)
  refine ⟨hclosed.1, fun a ha => ?_⟩
  exact (hclosed.2 a ha).resolve_left List.not_mem_nil

theorem mro : s'.mro id = s.mro id := by
  rcases h.ancestors hid with ⟨hancestors, hknown⟩
  unfold Snapshot.mro
  rw [h.nativeMro hid, hancestors]
  apply List.map_congr_left
  intro a ha
  apply h.typeName
  cases hnative : s.nativeMro id with
  | none =>
      rw [hnative] at ha
      exact hknown a ha
  | some order =>
      rw [hnative] at ha
      exact h.known_nativeMro hid hnative a ha

end AgreeOn
end Snapshot

/-! ## Entries and records -/

namespace Extraction
variable {s s' : Snapshot} {known : Id → Prop} {c : Settings} {r r' : Resolver} {id : Id}

/-- Two resolvers find the same for some objects. -/
def Resolver.AgreeOn (known : Id → Prop) (r r' : Resolver) : Prop :=
  ∀ id, known id → r'.overloads id = r.overloads id ∧ r'.accessorType id = r.accessorType id

section
variable (h : s.AgreeOn known s')
include h

theorem agreeOn_resolver (c : Settings) : (resolver s c).AgreeOn known (resolver s' c) := by
  intro id hid
  constructor
  · change overloads s' c id = overloads s c id
    unfold overloads
    rw [h.doc hid, h.signatures hid]
  · change accessorType s' c id = accessorType s c id
    unfold accessorType
    rw [h.descriptorType hid]
    cases htype : s.descriptorType id with
    | none => rfl
    | some type =>
        dsimp only
        rw [h.typeName (h.known_descriptorType hid htype)]

theorem typeInfo_of_agreeOn (hid : known id) (hidden : Bool) :
    typeInfo s' hidden id = typeInfo s hidden id := by
  have hbases : (s.bases id).map s'.typeName = (s.bases id).map s.typeName :=
    List.map_congr_left fun base hbase => h.typeName (h.known_bases hid base hbase)
  unfold typeInfo
  rw [h.mro hid, h.bases hid, h.doc hid, h.nativeMro hid, hbases]

theorem datum_of_agreeOn (hid : known id) : datum s' id = datum s id := by
  unfold datum
  rw [h.typeOf hid, h.typeName (h.known_typeOf hid)]

theorem callable_of_agreeOn (hr : r.AgreeOn known r') (hid : known id) :
    r'.callable s' id = r.callable s id := by
  unfold Resolver.callable
  rw [(hr id hid).1, h.doc hid, h.isStatic hid]

theorem property_of_agreeOn (hr : r.AgreeOn known r') (hid : known id) :
    r'.property s' id = r.property s id := by
  unfold Resolver.property
  rw [(hr id hid).2, h.doc hid]

theorem isRootConstructor_of_agreeOn (id : Id) (member : String) :
    isRootConstructor s' id member = isRootConstructor s id member := by
  unfold isRootConstructor
  rw [h.wellKnown]

/-- The entry of an object, with all that is below it. -/
theorem entryIn_of_agreeOn (hr : r.AgreeOn known r') (room : ℕ) (chain : List TypeName)
    (hidden : Bool) (hid : known id) :
    entryIn s' c r' room chain hidden id = entryIn s c r room chain hidden id := by
  induction room generalizing chain hidden id with
  | zero =>
      rw [entryIn, entryIn, h.category hid, h.typeName hid, callable_of_agreeOn h hr hid,
        property_of_agreeOn h hr hid, datum_of_agreeOn h hid]
  | succ room ih =>
      have hmembers : memberEntries s' c (entryIn s' c r' room (s.typeName id :: chain) false) id =
          memberEntries s c (entryIn s c r room (s.typeName id :: chain) false) id := by
        unfold memberEntries
        rw [h.members hid]
        apply List.map_congr_left
        intro p hp
        rcases p with ⟨member, next⟩
        dsimp only
        rw [isRootConstructor_of_agreeOn h, ih _ _ (h.known_members hid _ hp)]
      rw [entryIn, entryIn, h.category hid, h.typeName hid, callable_of_agreeOn h hr hid,
        property_of_agreeOn h hr hid, datum_of_agreeOn h hid, typeInfo_of_agreeOn h hid, hmembers]

theorem notesIn_of_agreeOn (room : ℕ) (chain : List TypeName) (hid : known id) :
    notesIn s' c room chain id = notesIn s c room chain id := by
  induction room generalizing chain id with
  | zero => rw [notesIn, notesIn, h.category hid, h.typeName hid]
  | succ room ih =>
      have hmembers : memberNotes s' (notesIn s' c room (s.typeName id :: chain)) id =
          memberNotes s (notesIn s c room (s.typeName id :: chain)) id := by
        unfold memberNotes
        rw [h.members hid]
        apply List.flatMap_congr
        intro p hp
        rcases p with ⟨member, next⟩
        dsimp only
        rw [isRootConstructor_of_agreeOn h, ih _ (h.known_members hid _ hp)]
      rw [notesIn, notesIn, h.category hid, h.typeName hid, hmembers]

theorem entry_of_agreeOn (hid : known id) (hidden : Bool) :
    entry s' c hidden id = entry s c hidden id :=
  entryIn_of_agreeOn h (agreeOn_resolver h c) _ _ _ hid

theorem notes_of_agreeOn (hid : known id) : notes s' c id = notes s c id :=
  notesIn_of_agreeOn h _ _ hid

theorem known_hiddenEntries : ∀ p ∈ s.wellKnown.hiddenEntries, known p.2 := by
  have hnamed := h.named
  simp_all [WellKnown.named, WellKnown.hiddenEntries]

variable {module : String} (hmodule : s'.modules.find? module = s.modules.find? module)
  (hmembers : ∀ n, s.modules.find? module = some n → ∀ p ∈ n.members, known p.2)
include hmodule hmembers

theorem record?_of_agreeOn : record? s' c module = record? s c module := by
  unfold record?
  rw [hmodule]
  cases hn : s.modules.find? module with
  | none => rfl
  | some n =>
      rw [Option.map_some, Option.map_some]
      unfold recordOf
      congr 2
      apply List.map_congr_left
      intro p hp
      rcases p with ⟨member, id⟩
      dsimp only
      rw [entry_of_agreeOn h (hmembers n hn _ hp)]

theorem log_of_agreeOn : log s' c module = log s c module := by
  unfold log
  rw [hmodule]
  cases hn : s.modules.find? module with
  | none => rfl
  | some n =>
      dsimp only
      congr 1
      apply List.flatMap_congr
      intro p hp
      rw [notes_of_agreeOn h (hmembers n hn _ hp)]

theorem builtinRecord?_of_agreeOn : builtinRecord? s' c module = builtinRecord? s c module := by
  unfold builtinRecord?
  rw [record?_of_agreeOn h hmodule hmembers]
  congr 1
  funext record
  unfold withHidden
  rw [h.wellKnown]
  congr 1
  apply List.foldl_ext
  intro members p hp
  rcases p with ⟨name, id⟩
  dsimp only
  rw [entry_of_agreeOn h (known_hiddenEntries h _ hp)]

theorem builtinLog_of_agreeOn : builtinLog s' c module = builtinLog s c module := by
  unfold builtinLog
  rw [hmodule, log_of_agreeOn h hmodule hmembers, h.wellKnown]
  cases hn : s.modules.find? module with
  | none => rfl
  | some n =>
      dsimp only
      congr 1
      apply List.flatMap_congr
      intro p hp
      rw [notes_of_agreeOn h (known_hiddenEntries h _ hp)]

/-- What is provided for a module whose members are among the objects agreed on. -/
theorem provider_of_agreeOn (c : Settings) :
    (provider s' c).extract module = (provider s c).extract module ∧
      (provider s' c).extractBuiltin module = (provider s c).extractBuiltin module := by
  simp only [provider]
  rw [record?_of_agreeOn h hmodule hmembers, log_of_agreeOn h hmodule hmembers,
    builtinRecord?_of_agreeOn h hmodule hmembers, builtinLog_of_agreeOn h hmodule hmembers]
  exact ⟨rfl, rfl⟩

end
end Extraction

/-! ## Sound snapshots -/

namespace Snapshot
variable {s s' : Snapshot}

/-- Every id in a snapshot is the id of one of its objects. -/
structure Closed (s : Snapshot) : Prop where
  wellKnown : ∀ p ∈ s.wellKnown.named, s.isListed p.2
  modules : ∀ m ∈ s.modules, ∀ p ∈ m.2.members, s.isListed p.2
  objects : ∀ o ∈ s.objects, ∀ id ∈ o.2.references, s.isListed id

theorem isListed_of_danglingFrom {referrer : Referrer} {ids : List Id}
    (h : s.danglingFrom referrer ids = []) : ∀ id ∈ ids, s.isListed id := by
  intro id hid
  have hnone := List.filter_eq_nil_iff.mp (List.map_eq_nil_iff.mp h) id hid
  simpa using hnone

theorem closed_of_check (h : s.check = .ok s) : s.Closed := by
  have hfaults : s.faults = [] := by
    unfold check at h
    split at h
    · assumption
    · cases h
  rcases List.append_eq_nil_iff.mp hfaults with ⟨hothers, hobjects⟩
  rcases List.append_eq_nil_iff.mp hothers with ⟨hknown, hmodules⟩
  rw [List.flatMap_eq_nil_iff] at hknown hmodules hobjects
  constructor
  · intro p hp
    exact isListed_of_danglingFrom (hknown p hp) p.2 List.mem_cons_self
  · intro m hm p hp
    have hmember := List.flatMap_eq_nil_iff.mp (hmodules m hm) p hp
    exact isListed_of_danglingFrom hmember p.2 List.mem_cons_self
  · intro o ho id hid
    have hrefs := (List.append_eq_nil_iff.mp (hobjects o ho)).2
    exact isListed_of_danglingFrom hrefs id hid

/-- A snapshot has the same well-known types as another one, and all its objects and modules with
the same content. -/
structure Extends (s s' : Snapshot) : Prop where
  wellKnown : s'.wellKnown = s.wellKnown
  objects : ∀ id o, s.object? id = some o → s'.object? id = some o
  modules : ∀ module n, s.modules.find? module = some n → s'.modules.find? module = some n

/-- A snapshot with further objects and modules. -/
def add (s : Snapshot) (objects : Table Object) (modules : Table Namespace) : Snapshot :=
  { s with objects := s.objects ++ objects, modules := s.modules ++ modules }

theorem extends_add (s : Snapshot) (objects : Table Object) (modules : Table Namespace) :
    s.Extends (s.add objects modules) := by
  refine ⟨rfl, ?_, ?_⟩
  · intro id o ho
    exact Table.find?_append_of_some ho objects
  · intro module n hn
    exact Table.find?_append_of_some hn modules

theorem Extends.agreeOn (h : s.Extends s') (hs : s.Closed) :
    s.AgreeOn (fun id => s.isListed id) s' := by
  refine ⟨h.wellKnown, ?_, hs.wellKnown, ?_⟩
  · intro id hid
    rcases Option.isSome_iff_exists.mp hid with ⟨o, ho⟩
    rw [ho, h.objects id o ho]
  · intro id o _ ho next hnext
    exact hs.objects (id, o) (Table.mem_of_find? ho) next hnext

end Snapshot

namespace Extraction

/-- What is extracted from a sound snapshot stays the same when objects and modules are added to it:
the entry of every object, with any resolver that does not answer otherwise for the objects that
were there, and what is provided for every module. -/
theorem extraction_of_extends {s s' : Snapshot} (hs : s.check = .ok s) (h : s.Extends s')
    (c : Settings) :
    (∀ r r' : Resolver, r.AgreeOn (fun id => s.isListed id) r' → ∀ hidden id, s.isListed id →
      entryBy s' c r' hidden id = entryBy s c r hidden id) ∧
    (∀ hidden id, s.isListed id → entry s' c hidden id = entry s c hidden id) ∧
    ∀ module, (s.modules.find? module).isSome →
      (provider s' c).extract module = (provider s c).extract module ∧
      (provider s' c).extractBuiltin module = (provider s c).extractBuiltin module := by
  have hclosed := Snapshot.closed_of_check hs
  have hagree := h.agreeOn hclosed
  refine ⟨?_, ?_, ?_⟩
  · intro r r' hr hidden id hid
    exact entryIn_of_agreeOn hagree hr _ _ _ hid
  · intro hidden id hid
    exact entry_of_agreeOn hagree hid hidden
  · intro module hmodule
    rcases Option.isSome_iff_exists.mp hmodule with ⟨n, hn⟩
    apply provider_of_agreeOn hagree
    · rw [hn, h.modules module n hn]
    · intro n hn
      exact hclosed.modules (module, n) (Table.mem_of_find? hn)

/-- A class without an ancestor order, on a cycle of bases, with an accessor that declares a type.
-/
def legacySnapshot : Snapshot where
  wellKnown := ⟨"a", "a", "a", "a", "a", "a", "a"⟩
  modules := [("m", { members := [("A", "a"), ("B", "b")] })]
  objects := [
    ("a", { category := .legacyClass, module := some "m", name := some "A", bases := ["b"],
            members := [("x", "c")] }),
    ("b", { category := .legacyClass, module := some "m", name := some "B", bases := ["a"] }),
    ("c", { category := .getsetDescriptor, descriptorType := some "b" })]

/-- It with an object and a module more. -/
def grownSnapshot : Snapshot :=
  legacySnapshot.add [("z", { category := .value, type := some "a" })] [("n", {})]

theorem extraction_of_extends_legacy :
    legacySnapshot.check = .ok legacySnapshot ∧ legacySnapshot.Extends grownSnapshot ∧
      legacySnapshot.isListed "a" ∧
      entry grownSnapshot { strategy := .declared } true "a" =
        entry legacySnapshot { strategy := .declared } true "a" ∧
      (provider grownSnapshot { strategy := .declared }).extract "m" =
        (provider legacySnapshot { strategy := .declared }).extract "m" := by
  have hfaults : legacySnapshot.faults = [] := by decide +kernel
  have hcheck : legacySnapshot.check = .ok legacySnapshot := by rw [Snapshot.check, hfaults]
  have hextends : legacySnapshot.Extends grownSnapshot := legacySnapshot.extends_add _ _
  have hlisted : legacySnapshot.isListed "a" := by decide +kernel
  have hsame := extraction_of_extends hcheck hextends { strategy := .declared }
  exact ⟨hcheck, hextends, hlisted, hsame.2.1 true "a" hlisted, (hsame.2.2 "m" rfl).1⟩

end Extraction
end CompletionDb
