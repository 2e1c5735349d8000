import Mathlib.Logic.Relation
import CompletionDb.Proofs.ExtractedRecords
import CompletionDb.Proofs.SnapshotGrowth

/-!
# Snapshots that load

Loading looks at the spots of a snapshot one after the other: the well-known types, the members of
the modules, and of each object its name, its module and all ids in it. `Spot.Before` is the order,
and `fault?` says what is wrong at a spot, without regard to any other. The faults that loading
lists are those of the spots in order, so the one that it reports is the first.

In a snapshot that loads no query leads out of the listed objects, however many are asked in a row.
-/
namespace CompletionDb

/-! ## Spots and their order -/

/-- A part of an object that is looked at. -/
inductive Part
  | name
  | module
  | type
  | mro (i : ℕ)
  | base (i : ℕ)
  | member (name : String)
  | descriptorType

namespace Part

def rank : Part → ℕ
  | .name => 0
  | .module => 1
  | .type => 2
  | .mro _ => 3
  | .base _ => 4
  | .member _ => 5
  | .descriptorType => 6

/-- The order of the parts of an object: those of lists by position, its members by name. -/
inductive Before : Part → Part → Prop
  | rank {p q : Part} : p.rank < q.rank → Before p q
  | mro {i j : ℕ} : i < j → Before (.mro i) (.mro j)
  | base {i j : ℕ} : i < j → Before (.base i) (.base j)
  | member {name next : String} : name < next → Before (.member name) (.member next)

theorem Before.asymm {p q : Part} (h : p.Before q) : ¬ q.Before p := by
  intro h'
  cases h with
  | rank hlt =>
      cases h' with
      | rank hlt' => exact lt_asymm hlt hlt'
      | _ => exact lt_irrefl _ hlt
  | mro hlt | base hlt | member hlt =>
      cases h' with
      | rank hlt' => exact lt_irrefl _ hlt'
      | _ hlt' => exact lt_asymm hlt hlt'

end Part

/-- A spot of a snapshot that is looked at. -/
inductive Spot
  | wellKnown (i : ℕ)
  | member (module name : String)
  | part (id : Id) (part : Part)

namespace Spot

def rank : Spot → ℕ
  | .wellKnown _ => 0
  | .member .. => 1
  | .part .. => 2

/-- The order of the spots: well-known types by position, members of modules by module and name,
parts of objects by id and then by their own order. -/
inductive Before : Spot → Spot → Prop
  | rank {p q : Spot} : p.rank < q.rank → Before p q
  | wellKnown {i j : ℕ} : i < j → Before (.wellKnown i) (.wellKnown j)
  | module {module next name name' : String} :
      module < next → Before (.member module name) (.member next name')
  | member {module name next : String} :
      name < next → Before (.member module name) (.member module next)
  | object {id next : Id} {p q : Part} : id < next → Before (.part id p) (.part next q)
  | part {id : Id} {p q : Part} : p.Before q → Before (.part id p) (.part id q)

theorem Before.asymm {p q : Spot} (h : p.Before q) : ¬ q.Before p := by
  intro h'
  cases h with
  | rank hlt =>
      cases h' with
      | rank hlt' => exact lt_asymm hlt hlt'
      | _ => exact lt_irrefl _ hlt
  | wellKnown hlt =>
      cases h' with
      | rank hlt' => exact lt_irrefl _ hlt'
      | wellKnown hlt' => exact lt_asymm hlt hlt'
  | module hlt =>
      cases h' with
      | rank hlt' => exact lt_irrefl _ hlt'
      | module hlt' => exact lt_asymm hlt hlt'
      | member => exact lt_irrefl _ hlt
  | member hlt =>
      cases h' with
      | rank hlt' => exact lt_irrefl _ hlt'
      | module hlt' => exact lt_irrefl _ hlt'
      | member hlt' => exact lt_asymm hlt hlt'
  | object hlt =>
      cases h' with
      | rank hlt' => exact lt_irrefl _ hlt'
      | object hlt' => exact lt_asymm hlt hlt'
      | part => exact lt_irrefl _ hlt
  | part hpart =>
      cases h' with
      | rank hlt' => exact lt_irrefl _ hlt'
      | object hlt' => exact lt_irrefl _ hlt'
      | part hpart' => exact hpart.asymm hpart'

end Spot

namespace Snapshot
variable {s : Snapshot}

/-! ## What is wrong at a spot -/

/-- What is wrong with an id: it is not listed. -/
def dangling? (s : Snapshot) (referrer : Referrer) (id : Id) : Option Fault :=
  if id ∈ s.objects.keys then none else some (.dangling referrer id)

def partFault? (s : Snapshot) (id : Id) (o : Object) : Part → Option Fault
  | .name => if o.category.isClass ∧ o.name = none then some (.unnamed id) else none
  | .module => if o.category.isClass ∧ o.module = none then some (.homeless id) else none
  | .type => o.type.bind (s.dangling? (.object id))
  | .mro i => (o.mro.getD [])[i]?.bind (s.dangling? (.object id))
  | .base i => o.bases[i]?.bind (s.dangling? (.object id))
  | .member name => (o.members.find? name).bind (s.dangling? (.object id))
  | .descriptorType => o.descriptorType.bind (s.dangling? (.object id))

/-- What is wrong at a spot, whatever is wrong elsewhere. -/
def fault? (s : Snapshot) : Spot → Option Fault
  | .wellKnown i => s.wellKnown.named[i]?.bind fun p => s.dangling? (.wellKnown p.1) p.2
  | .member module name =>
    (s.modules.find? module).bind fun n =>
      (n.members.find? name).bind (s.dangling? (.member module name))
  | .part id part => (s.object? id).bind fun o => s.partFault? id o part

/-- A fault at a spot before which nothing is wrong. -/
def FirstFault (s : Snapshot) (fault : Fault) : Prop :=
  ∃ spot, s.fault? spot = some fault ∧ ∀ earlier, Spot.Before earlier spot → s.fault? earlier = none

/-! ## All spots -/

/-- All tables of a snapshot ascend. -/
structure Sorted (s : Snapshot) : Prop where
  modules : s.modules.Ascending
  objects : s.objects.Ascending
  members : s.Ordered

/-- The parts of an object in their order. -/
def parts (o : Object) : List Part :=
  [.name, .module, .type] ++ (List.range (o.mro.getD []).length).map .mro ++
    (List.range o.bases.length).map .base ++ o.members.keys.map .member ++ [.descriptorType]

/-- The spots of a snapshot in their order. -/
def spots (s : Snapshot) : List Spot :=
  (List.range s.wellKnown.named.length).map .wellKnown ++
    s.modules.flatMap (fun m => m.2.members.keys.map (.member m.1)) ++
    s.objects.flatMap (fun m => (parts m.2).map (.part m.1))

theorem mem_parts {id : Id} {o : Object} {part : Part} {fault : Fault}
    (h : s.partFault? id o part = some fault) : part ∈ parts o := by
  simp only [parts, List.mem_append, List.mem_map, List.mem_range]
  cases part with
  | name | module | type | descriptorType => simp
  | mro i =>
      obtain ⟨target, htarget, -⟩ := Option.bind_eq_some_iff.mp h
      exact .inl (.inl (.inl (.inr ⟨i, (List.getElem?_eq_some_iff.mp htarget).1, rfl⟩)))
  | base i =>
      obtain ⟨target, htarget, -⟩ := Option.bind_eq_some_iff.mp h
      exact .inl (.inl (.inr ⟨i, (List.getElem?_eq_some_iff.mp htarget).1, rfl⟩))
  | member name =>
      obtain ⟨target, htarget, -⟩ := Option.bind_eq_some_iff.mp h
      exact .inl (.inr ⟨name, Table.mem_keys_of_find? htarget, rfl⟩)

theorem mem_spots {spot : Spot} {fault : Fault} (h : s.fault? spot = some fault) :
    spot ∈ s.spots := by
  simp only [spots, List.mem_append, List.mem_map, List.mem_range, List.mem_flatMap]
  cases spot with
  | wellKnown i =>
      obtain ⟨p, hp, -⟩ := Option.bind_eq_some_iff.mp h
      exact .inl (.inl ⟨i, (List.getElem?_eq_some_iff.mp hp).1, rfl⟩)
  | member module name =>
      obtain ⟨n, hn, hfault⟩ := Option.bind_eq_some_iff.mp h
      obtain ⟨target, htarget, -⟩ := Option.bind_eq_some_iff.mp hfault
      have hname := Table.mem_keys_of_find? htarget
      exact .inl (.inr ⟨(module, n), Table.mem_of_find? hn, name, hname, rfl⟩)
  | part id part =>
      obtain ⟨o, ho, hpart⟩ := Option.bind_eq_some_iff.mp h
      exact .inr ⟨(id, o), Table.mem_of_find? ho, part, mem_parts hpart, rfl⟩

/-- Blocks whose ranks rise follow each other in order. -/
theorem pairwise_append_of_rank {ps qs : List Part} {k : ℕ} (hps : ps.Pairwise Part.Before)
    (hqs : qs.Pairwise Part.Before) (hlt : ∀ p ∈ ps, p.rank < k) (hle : ∀ q ∈ qs, k ≤ q.rank) :
    (ps ++ qs).Pairwise Part.Before :=
  List.pairwise_append.mpr
    ⟨hps, hqs, fun p hp q hq => .rank (lt_of_lt_of_le (hlt p hp) (hle q hq))⟩

theorem pairwise_parts {o : Object} (h : o.members.Ascending) : (parts o).Pairwise Part.Before := by
  have hfirst : [Part.name, .module, .type].Pairwise Part.Before := by
    simp only [List.pairwise_cons, List.mem_cons, List.not_mem_nil, or_false, forall_eq_or_imp,
      forall_eq]
    exact ⟨⟨.rank (by decide), .rank (by decide)⟩, .rank (by decide), fun _ => False.elim, .nil⟩
  have hmro : ((List.range (o.mro.getD []).length).map Part.mro).Pairwise Part.Before :=
    List.pairwise_lt_range.map _ fun _ _ => .mro
  have hbase : ((List.range o.bases.length).map Part.base).Pairwise Part.Before :=
    List.pairwise_lt_range.map _ fun _ _ => .base
  have hmember : (o.members.keys.map Part.member).Pairwise Part.Before := h.map _ fun _ _ => .member
  refine pairwise_append_of_rank (k := 6) (pairwise_append_of_rank (k := 5)
    (pairwise_append_of_rank (k := 4) (pairwise_append_of_rank (k := 3) hfirst hmro ?_ ?_)
      hbase ?_ ?_) hmember ?_ ?_) (List.pairwise_singleton _ _) ?_ ?_ <;>
    simp [or_imp, forall_and, Part.rank]

theorem pairwise_spots (h : s.Sorted) : s.spots.Pairwise Spot.Before := by
  have hknown : ((List.range s.wellKnown.named.length).map Spot.wellKnown).Pairwise Spot.Before :=
    List.pairwise_lt_range.map _ fun _ _ => .wellKnown
  have hmodules : (s.modules.flatMap fun m => m.2.members.keys.map (Spot.member m.1)).Pairwise
      Spot.Before := by
    rw [List.pairwise_flatMap]
    constructor
    · intro m hm
      exact (h.members.modules m hm).map _ fun _ _ => .member
    · refine (List.pairwise_map.mp h.modules).imp ?_
      simp only [List.forall_mem_map]
      intro m n hlt _ _ _ _
      exact .module hlt
  have hobjects : (s.objects.flatMap fun m => (parts m.2).map (Spot.part m.1)).Pairwise
      Spot.Before := by
    rw [List.pairwise_flatMap]
    constructor
    · intro m hm
      exact (pairwise_parts (h.members.objects m hm)).map _ fun _ _ => .part
    · refine (List.pairwise_map.mp h.objects).imp ?_
      simp only [List.forall_mem_map]
      intro m n hlt _ _ _ _
      exact .object hlt
  refine List.pairwise_append.mpr ⟨List.pairwise_append.mpr ⟨hknown, hmodules, ?_⟩, hobjects, ?_⟩
  · simp only [List.forall_mem_map, List.forall_mem_flatMap]
    intro _ _ _ _ _ _
    exact .rank Nat.zero_lt_one
  · simp only [List.forall_mem_append, List.forall_mem_map, List.forall_mem_flatMap]
    exact ⟨fun _ _ _ _ _ _ => .rank Nat.zero_lt_two, fun _ _ _ _ _ _ _ _ => .rank Nat.one_lt_two⟩

/-! ## Faults are those of the spots -/

theorem isListed_iff {id : Id} : s.isListed id = true ↔ id ∈ s.objects.keys := by
  constructor
  · intro h
    obtain ⟨o, ho⟩ := Option.isSome_iff_exists.mp h
    exact Table.mem_keys_of_find? ho
  · intro h
    obtain ⟨m, hm, rfl⟩ := List.mem_map.mp h
    by_contra hnone
    have hlookup : s.objects.lookup m.1 = none := Option.not_isSome_iff_eq_none.mp hnone
    simpa using List.lookup_eq_none_iff.mp hlookup m hm

theorem danglingFrom_eq_filterMap (referrer : Referrer) (ids : List Id) :
    s.danglingFrom referrer ids = ids.filterMap (s.dangling? referrer) := by
  unfold danglingFrom
  induction ids with
  | nil => rfl
  | cons id ids ih =>
      by_cases hid : s.isListed id
      · have hnone : s.dangling? referrer id = none := if_pos (isListed_iff.mp hid)
        rw [List.filter_cons_of_neg (by simp [hid]), List.filterMap_cons_none hnone, ih]
      · have hsome : s.dangling? referrer id = some (.dangling referrer id) :=
          if_neg fun hmem => hid (isListed_iff.mpr hmem)
        rw [List.filter_cons_of_pos (by simp [hid]), List.map_cons,
          List.filterMap_cons_some hsome, ih]

section
variable {α β : Type}

theorem filterMap_cons_toList (f : α → Option β) (a : α) (l : List α) :
    (a :: l).filterMap f = (f a).toList ++ l.filterMap f := by
  rw [List.filterMap_eq_flatMap_toList, List.filterMap_eq_flatMap_toList, List.flatMap_cons]

theorem toList_bind (a? : Option α) (f : α → Option β) :
    (a?.bind f).toList = a?.toList.filterMap f := by
  cases a? with
  | none => rfl
  | some a => cases h : f a <;> simp [h]

theorem filterMap_range (l : List α) (f : α → Option β) :
    (List.range l.length).filterMap (fun i => l[i]?.bind f) = l.filterMap f := by
  have hsome : (List.range l.length).map (fun i => l[i]?) = l.map some := by
    apply List.ext_getElem
    · simp
    · intro i h h'
      simp
  calc (List.range l.length).filterMap (fun i => l[i]?.bind f)
      = ((List.range l.length).map fun i => l[i]?).filterMap (·.bind f) := by
        rw [List.filterMap_map]
        rfl
    _ = (l.map some).filterMap (·.bind f) := by rw [hsome]
    _ = l.filterMap f := List.filterMap_map

theorem filterMap_keys {table : Table α} (h : table.Ascending) (f : String → α → Option β) :
    table.keys.filterMap (fun name => (table.find? name).bind (f name)) =
      table.filterMap fun m => f m.1 m.2 := by
  rw [Table.keys, List.filterMap_map]
  apply List.filterMap_congr
  intro m hm
  rw [Function.comp_apply, Table.find?_of_mem h hm, Option.bind_some]

end

theorem filterMap_parts (id : Id) {o : Object} (h : o.members.Ascending) :
    (parts o).filterMap (s.partFault? id o) = s.objectFaults id o := by
  have hname : (s.partFault? id o .name).toList =
      if o.category.isClass && o.name.isNone then [.unnamed id] else [] := by
    by_cases hfault : o.category.isClass ∧ o.name = none <;> simp [partFault?, hfault]
  have hmodule : (s.partFault? id o .module).toList =
      if o.category.isClass && o.module.isNone then [.homeless id] else [] := by
    by_cases hfault : o.category.isClass ∧ o.module = none <;> simp [partFault?, hfault]
  have hmro : (List.range (o.mro.getD []).length).filterMap (s.partFault? id o ∘ .mro) =
      (o.mro.getD []).filterMap (s.dangling? (.object id)) := filterMap_range _ _
  have hbase : (List.range o.bases.length).filterMap (s.partFault? id o ∘ .base) =
      o.bases.filterMap (s.dangling? (.object id)) := filterMap_range _ _
  have hmember : o.members.keys.filterMap (s.partFault? id o ∘ .member) =
      (o.members.map Prod.snd).filterMap (s.dangling? (.object id)) := by
    rw [List.filterMap_map]
    exact filterMap_keys h fun _ => s.dangling? (.object id)
  have htype : s.partFault? id o .type = o.type.bind (s.dangling? (.object id)) := rfl
  have hdescriptor :
      s.partFault? id o .descriptorType = o.descriptorType.bind (s.dangling? (.object id)) := rfl
  simp only [objectFaults, danglingFrom_eq_filterMap, Object.references, parts,
    List.filterMap_append, filterMap_cons_toList, List.filterMap_nil, List.append_nil,
    List.filterMap_map (g := s.partFault? id o), hname, hmodule, htype, hmro, hbase, hmember,
    hdescriptor, toList_bind, List.append_assoc]

@[simp] theorem danglingFrom_singleton (referrer : Referrer) (id : Id) :
    s.danglingFrom referrer [id] = (s.dangling? referrer id).toList := by
  rw [danglingFrom_eq_filterMap, filterMap_cons_toList, List.filterMap_nil, List.append_nil]

theorem filterMap_moduleSpots (h : s.Sorted) {m : String × Namespace} (hm : m ∈ s.modules) :
    (m.2.members.keys.map (Spot.member m.1)).filterMap s.fault? =
      m.2.members.filterMap fun p => s.dangling? (.member m.1 p.1) p.2 := by
  have hfault : ∀ name, s.fault? (.member m.1 name) =
      (m.2.members.find? name).bind (s.dangling? (.member m.1 name)) := by
    intro name
    rw [fault?, Table.find?_of_mem h.modules hm, Option.bind_some]
  rw [List.filterMap_map]
  simp only [Function.comp_def, hfault]
  exact filterMap_keys (h.members.modules m hm) fun name => s.dangling? (.member m.1 name)

theorem filterMap_objectSpots (h : s.Sorted) {m : Id × Object} (hm : m ∈ s.objects) :
    ((parts m.2).map (Spot.part m.1)).filterMap s.fault? = s.objectFaults m.1 m.2 := by
  have hfault : s.fault? ∘ .part m.1 = s.partFault? m.1 m.2 := by
    funext part
    rw [Function.comp_apply, fault?, object?, Table.find?_of_mem h.objects hm, Option.bind_some]
  rw [List.filterMap_map, hfault, filterMap_parts m.1 (h.members.objects m hm)]

/-- The faults are those of the spots, one after the other. -/
theorem filterMap_spots (h : s.Sorted) : s.spots.filterMap s.fault? = s.faults := by
  have hknown : (List.range s.wellKnown.named.length).filterMap (s.fault? ∘ .wellKnown) =
      s.wellKnown.named.filterMap fun p => s.dangling? (.wellKnown p.1) p.2 := filterMap_range _ _
  rw [spots, faults, List.filterMap_append, List.filterMap_append, List.filterMap_map, hknown,
    List.filterMap_flatMap, List.filterMap_flatMap]
  congr 1
  · congr 1
    · rw [List.filterMap_eq_flatMap_toList]
      exact List.flatMap_congr fun p _ => (danglingFrom_singleton _ p.2).symm
    · apply List.flatMap_congr
      intro m hm
      rw [filterMap_moduleSpots h hm, List.filterMap_eq_flatMap_toList]
      exact List.flatMap_congr fun p _ => (danglingFrom_singleton _ p.2).symm
  · exact List.flatMap_congr fun m hm => filterMap_objectSpots h hm

/-! ## The first fault -/

/-- The head of what is found along a list in order is what is found first. -/
theorem head?_filterMap_eq_some_iff {α β : Type} {before : α → α → Prop}
    (hasymm : ∀ a b, before a b → ¬ before b a) {l : List α} (hl : l.Pairwise before)
    {f : α → Option β} {b : β} :
    (l.filterMap f).head? = some b ↔
      ∃ a ∈ l, f a = some b ∧ ∀ a' ∈ l, before a' a → f a' = none := by
  induction l with
  | nil => simp
  | cons x l ih =>
      obtain ⟨hx, hl⟩ := List.pairwise_cons.mp hl
      cases hfx : f x with
      | none =>
          rw [List.filterMap_cons_none hfx, ih hl]
          constructor
          · rintro ⟨a, ha, hfa, hfirst⟩
            refine ⟨a, List.mem_cons_of_mem _ ha, hfa, ?_⟩
            rw [List.forall_mem_cons]
            exact ⟨fun _ => hfx, hfirst⟩
          · rintro ⟨a, ha, hfa, hfirst⟩
            rcases List.mem_cons.mp ha with rfl | ha
            · rw [hfx] at hfa
              cases hfa
            · exact ⟨a, ha, hfa, fun a' ha' => hfirst a' (List.mem_cons_of_mem _ ha')⟩
      | some b' =>
          rw [List.filterMap_cons_some hfx, List.head?_cons, Option.some.injEq]
          constructor
          · rintro rfl
            refine ⟨x, List.mem_cons_self, hfx, ?_⟩
            rw [List.forall_mem_cons]
            exact ⟨fun h => absurd h (hasymm x x h),
              fun a ha h => absurd (hx a ha) (hasymm a x h)⟩
          · rintro ⟨a, ha, hfa, hfirst⟩
            rcases List.mem_cons.mp ha with rfl | ha
            · rw [hfx] at hfa
              exact Option.some.inj hfa
            · have hnone := hfirst x List.mem_cons_self (hx a ha)
              rw [hfx] at hnone
              cases hnone

theorem head?_faults_eq_some_iff (h : s.Sorted) {fault : Fault} :
    s.faults.head? = some fault ↔ s.FirstFault fault := by
  rw [← filterMap_spots h,
    head?_filterMap_eq_some_iff (fun _ _ => Spot.Before.asymm) (pairwise_spots h)]
  constructor
  · rintro ⟨spot, -, hfault, hfirst⟩
    refine ⟨spot, hfault, fun earlier hbefore => ?_⟩
    by_contra hne
    obtain ⟨other, hother⟩ := Option.ne_none_iff_exists'.mp hne
    exact hne (hfirst earlier (mem_spots hother) hbefore)
  · rintro ⟨spot, hfault, hfirst⟩
    exact ⟨spot, mem_spots hfault, hfault, fun earlier _ hbefore => hfirst earlier hbefore⟩

/-! ## Sound snapshots -/

/-- An object whose ids are all listed, and which has a name and a module if it is a class. -/
structure SoundObject (s : Snapshot) (o : Object) : Prop where
  name : o.category.isClass → o.name.isSome
  module : o.category.isClass → o.module.isSome
  type : ∀ id ∈ o.type, id ∈ s.objects.keys
  mro : ∀ order ∈ o.mro, ∀ id ∈ order, id ∈ s.objects.keys
  bases : ∀ id ∈ o.bases, id ∈ s.objects.keys
  members : ∀ m ∈ o.members, m.2 ∈ s.objects.keys
  descriptorType : ∀ id ∈ o.descriptorType, id ∈ s.objects.keys

/-- Every id in a snapshot is the id of a listed object, and every class has a name and a module. -/
structure Sound (s : Snapshot) : Prop where
  wellKnown : ∀ p ∈ s.wellKnown.named, p.2 ∈ s.objects.keys
  modules : ∀ m ∈ s.modules, ∀ p ∈ m.2.members, p.2 ∈ s.objects.keys
  objects : ∀ m ∈ s.objects, s.SoundObject m.2

@[simp] theorem danglingFrom_eq_nil_iff {referrer : Referrer} {ids : List Id} :
    s.danglingFrom referrer ids = [] ↔ ∀ id ∈ ids, id ∈ s.objects.keys := by
  simp only [danglingFrom, List.map_eq_nil_iff, List.filter_eq_nil_iff, Bool.not_eq_true',
    Bool.not_eq_false, isListed_iff]

theorem objectFaults_eq_nil_iff {id : Id} {o : Object} :
    s.objectFaults id o = [] ↔ s.SoundObject o := by
  have hmissing : ∀ (field : Option String) (fault : Fault),
      (if o.category.isClass && field.isNone then [fault] else []) = [] ↔
        (o.category.isClass → field.isSome) := by
    intro field fault
    cases o.category.isClass <;> cases field <;> simp
  rw [objectFaults, List.append_eq_nil_iff, List.append_eq_nil_iff, hmissing, hmissing,
    danglingFrom_eq_nil_iff, Object.references]
  simp only [List.forall_mem_append, List.forall_mem_map, Option.mem_toList]
  constructor
  · rintro ⟨⟨hname, hmodule⟩, ⟨⟨⟨htype, hmro⟩, hbases⟩, hmembers⟩, hdescriptor⟩
    refine ⟨hname, hmodule, htype, ?_, hbases, hmembers, hdescriptor⟩
    intro order horder
    rw [Option.mem_def.mp horder] at hmro
    exact hmro
  · intro h
    refine ⟨⟨h.name, h.module⟩, ⟨⟨⟨h.type, ?_⟩, h.bases⟩, h.members⟩, h.descriptorType⟩
    cases horder : o.mro with
    | none => exact List.forall_mem_nil _
    | some order => exact h.mro order horder

theorem faults_eq_nil_iff : s.faults = [] ↔ s.Sound := by
  rw [faults, List.append_eq_nil_iff, List.append_eq_nil_iff]
  simp only [List.flatMap_eq_nil_iff, danglingFrom_eq_nil_iff, List.forall_mem_singleton,
    objectFaults_eq_nil_iff]
  constructor
  · rintro ⟨⟨hknown, hmodules⟩, hobjects⟩
    exact ⟨hknown, hmodules, hobjects⟩
  · intro h
    exact ⟨⟨h.wellKnown, h.modules⟩, h.objects⟩

theorem check_eq_ok_iff {loaded : Snapshot} :
    s.check = .ok loaded ↔ loaded = s ∧ s.faults = [] := by
  unfold check
  cases s.faults with
  | nil => simp [eq_comm]
  | cons fault rest => simp

theorem check_eq_error_iff {e : LoadError} :
    s.check = .error e ↔ ∃ fault, e = .faulty fault ∧ s.faults.head? = some fault := by
  unfold check
  cases s.faults with
  | nil => simp
  | cons fault rest => simp [eq_comm]

/-! ## Queries in a row -/

/-- One query leads from an object to another. -/
inductive Leads (s : Snapshot) : Id → Id → Prop
  | typeOf (id : Id) : Leads s id (s.typeOf id)
  | nativeMro {id a : Id} {order : List Id} : s.nativeMro id = some order → a ∈ order → Leads s id a
  | base {id a : Id} : a ∈ s.bases id → Leads s id a
  | member {id : Id} {m : String × Id} : m ∈ s.members id → Leads s id m.2
  | descriptorType {id a : Id} : s.descriptorType id = some a → Leads s id a

/-- The objects that a walk starts from. -/
inductive Entered (s : Snapshot) : Id → Prop
  | wellKnown {p : String × Id} : p ∈ s.wellKnown.named → Entered s p.2
  | module {module : String} {n : Namespace} {p : String × Id} :
      s.modules.find? module = some n → p ∈ n.members → Entered s p.2

theorem isListed_of_leads (h : s.Closed) {id a : Id} (hid : s.isListed id)
    (hleads : s.Leads id a) : s.isListed a := by
  have hagree : s.AgreeOn (fun id => s.isListed id) s :=
    ⟨rfl, fun _ _ => rfl, h.wellKnown, fun _ _ _ ho => h.objects _ (Table.mem_of_find? ho)⟩
  cases hleads with
  | typeOf => exact hagree.known_typeOf hid
  | nativeMro horder ha => exact hagree.known_nativeMro hid horder a ha
  | base ha => exact hagree.known_bases hid a ha
  | member hm => exact hagree.known_members hid _ hm
  | descriptorType ha => exact hagree.known_descriptorType hid ha

theorem isListed_of_entered (h : s.Closed) {id : Id} (hid : s.Entered id) : s.isListed id := by
  cases hid with
  | wellKnown hp => exact h.wellKnown _ hp
  | module hn hp => exact h.modules _ (Table.mem_of_find? hn) _ hp

/-- In a snapshot without faults no row of queries leads out of the listed objects. -/
theorem mem_keys_of_reached (h : s.check = .ok s) {start x : Id} (hstart : s.Entered start)
    (hreached : Relation.ReflTransGen s.Leads start x) : x ∈ s.objects.keys := by
  have hclosed := closed_of_check h
  rw [← isListed_iff]
  induction hreached with
  | refl => exact isListed_of_entered hclosed hstart
  | tail _ hleads ih => exact isListed_of_leads hclosed ih hleads

/-! ## Loading a document -/

theorem sorted_of_ofData? {room : ℕ} {d : Data} (h : Snapshot.ofData? room d = some s) :
    s.Sorted := by
  have hordered := ordered_of_ofData? h
  unfold Snapshot.ofData? at h
  simp only [Option.bind_eq_bind, Option.bind_eq_some_iff] at h
  obtain ⟨fields, -, h⟩ := h
  split at h
  · simp only [Option.bind_eq_some_iff, Option.pure_def, Option.some.injEq] at h
    obtain ⟨_, -, _, -, modules, hmodules, objects, hobjects, rfl⟩ := h
    exact ⟨(Data.fieldOr_tableOf?_eq_some hmodules).1, (Data.fieldOr_tableOf?_eq_some hobjects).1,
      hordered⟩
  · cases h

theorem ofDocument_of_read {d : Data} (h : Snapshot.ofData? Json.maxDepth d = some s) :
    ofDocument d = s.check := by
  rw [ofDocument, h]

/-- Loading a document that can be read is exact. It succeeds, with the snapshot that was read, if
that is sound; otherwise the error is the fault at the first spot with one. From a snapshot that was
loaded, no row of queries leads out of the listed objects. -/
theorem load_exact {d : Data} {s : Snapshot} (hread : Snapshot.ofData? Json.maxDepth d = some s) :
    (∀ loaded, ofDocument d = .ok loaded ↔ loaded = s ∧ s.Sound) ∧
    (∀ e, ofDocument d = .error e ↔ ∃ fault, e = .faulty fault ∧ s.FirstFault fault) ∧
    ∀ loaded, ofDocument d = .ok loaded → ∀ start x, loaded.Entered start →
      Relation.ReflTransGen loaded.Leads start x → x ∈ loaded.objects.keys := by
  have hsorted := sorted_of_ofData? hread
  rw [ofDocument_of_read hread]
  refine ⟨fun loaded => ?_, fun e => ?_, fun loaded hload start x hstart hreached => ?_⟩
  · rw [check_eq_ok_iff, faults_eq_nil_iff]
  · simp only [check_eq_error_iff, head?_faults_eq_some_iff hsorted]
  · obtain ⟨rfl, -⟩ := check_eq_ok_iff.mp hload
    exact mem_keys_of_reached hload hstart hreached

/-- A document with a function in a module, and a class with a given base and a given member. -/
def basedDocument (base member : Id) : Data :=
  .object [
    ("well_known", .object (["root_object", "function", "builtin_function", "builtin_method",
      "generator", "none", "ellipsis"].map (·, .text "o"))),
    ("modules", .object [("m", .object [("members", .object [("f", .text "f")])])]),
    ("objects", .object [
      ("c", .object [("category", .text "class"), ("module", .text "m"), ("name", .text "C"),
        ("bases", .list [.text base]), ("members", .object [("a", .text member)])]),
      ("f", .object [("category", .text "builtin_function")]),
      ("o", .object [("category", .text "class"), ("module", .text "m"), ("name", .text "O")])])]

theorem load_exact_basedDocument :
    (∃ s, Snapshot.ofData? Json.maxDepth (basedDocument "o" "f") = some s ∧
      ofDocument (basedDocument "o" "f") = .ok s ∧ s.Sound ∧ s.Entered "f" ∧
      s.Leads "f" "o" ∧ "o" ∈ s.objects.keys) ∧
    ∃ s, Snapshot.ofData? Json.maxDepth (basedDocument "x" "y") = some s ∧
      ofDocument (basedDocument "x" "y") = .error (.faulty (.dangling (.object "c") "x")) ∧
      s.FirstFault (.dangling (.object "c") "x") := by
  constructor
  · have hfacts : (Snapshot.ofData? Json.maxDepth (basedDocument "o" "f")).map (fun s =>
        (s.faults, (s.modules.find? "m").map Namespace.members, s.typeOf "f")) =
        some ([], some [("f", "f")], "o") := by decide +kernel
    obtain ⟨s, hread, hs⟩ := Option.map_eq_some_iff.mp hfacts
    simp only [Prod.mk.injEq, Option.map_eq_some_iff] at hs
    obtain ⟨hfaults, ⟨n, hn, hmembers⟩, htype⟩ := hs
    obtain ⟨hok, -, hreached⟩ := load_exact hread
    have hsound := faults_eq_nil_iff.mp hfaults
    have hload := (hok s).mpr ⟨rfl, hsound⟩
    have hstart : s.Entered "f" := .module (p := ("f", "f")) hn (by simp [hmembers])
    have hleads : s.Leads "f" "o" := htype ▸ .typeOf "f"
    exact ⟨s, hread, hload, hsound, hstart, hleads,
      hreached s hload "f" "o" hstart (.single hleads)⟩
  · have hfacts : (Snapshot.ofData? Json.maxDepth (basedDocument "x" "y")).map Snapshot.faults =
        some [.dangling (.object "c") "x", .dangling (.object "c") "y"] := by decide +kernel
    obtain ⟨s, hread, hfaults⟩ := Option.map_eq_some_iff.mp hfacts
    have hload : ofDocument (basedDocument "x" "y") =
        .error (.faulty (.dangling (.object "c") "x")) := by
      rw [ofDocument_of_read hread, check_eq_error_iff, hfaults]
      exact ⟨_, rfl, rfl⟩
    obtain ⟨fault, heq, hfirst⟩ := ((load_exact hread).2.1 _).mp hload
    cases heq
    exact ⟨s, hread, hload, hfirst⟩

end Snapshot
end CompletionDb
