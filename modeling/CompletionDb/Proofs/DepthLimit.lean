import Mathlib.Data.Finset.Card
import Mathlib.Data.Finset.Dedup
import CompletionDb.Proofs.ExtractionByPath

/-!
# What the depth limit does

The depth limit cuts an entry off and does nothing else. Two limits give the same walks as long as
these are no longer than the smaller limit, so above it the two entries have the same shape and the
same fields. On the level of the smaller limit itself the types of the larger one are references.

The limit is not what makes extraction end. The types that are open inside each other have different
names, all of them names of classes of the snapshot, and the check for an open name comes first. A
limit that is not less than the number of these names is never reached, on any cycle of classes.
-/
namespace CompletionDb

/-- Settings with another depth limit. -/
def Settings.withDepth (c : Settings) (depth : ℕ) : Settings := { c with maxTypeDepth := depth }

/-- An entry without what is below it: of a type its own fields, of any other entry all. -/
def Entry.withoutMembers : Entry → Entry
  | .type info _ => .type info []
  | e => e

namespace Snapshot
variable {s : Snapshot} {depth depth' : ℕ} {before passed : List Id} {o : Id}

theorem length_of_walk? {path : List String} {last : Id}
    (h : s.walk? o path = some (passed, last)) : passed.length = path.length := by
  induction path generalizing o passed with
  | nil =>
      cases h
      rfl
  | cons name path ih =>
      obtain ⟨next, rest, -, hrest, rfl⟩ := walk?_cons.mp h
      rw [List.length_cons, List.length_cons, ih hrest]

theorem expanded_iff_of_lt (hle : depth ≤ depth') (hlt : before.length < depth) :
    s.Expanded depth before o ↔ s.Expanded depth' before o :=
  ⟨fun h => ⟨h.isClass, h.fresh, lt_of_lt_of_le hlt hle⟩, fun h => ⟨h.isClass, h.fresh, hlt⟩⟩

/-! ## Open types -/

/-- The names of all classes. -/
def classNames (s : Snapshot) : Finset TypeName :=
  ((s.objects.keys.filter fun id => (s.category id).isClass).map s.typeName).toFinset

/-- Only listed objects are classes. -/
theorem mem_keys_of_isClass (h : (s.category o).isClass) : o ∈ s.objects.keys := by
  unfold category at h
  cases hobject : s.object? o with
  | none =>
      rw [hobject] at h
      cases h
  | some object => exact Table.mem_keys_of_find? hobject

theorem typeName_mem_classNames (h : (s.category o).isClass) : s.typeName o ∈ s.classNames := by
  rw [classNames, List.mem_toFinset]
  exact List.mem_map_of_mem (List.mem_filter.mpr ⟨mem_keys_of_isClass h, h⟩)

/-- Types that are open inside each other: names of classes, each of them once. -/
structure OpenTypes (s : Snapshot) (chain : List TypeName) : Prop where
  nodup : chain.Nodup
  subset : ∀ t ∈ chain, t ∈ s.classNames

namespace OpenTypes
variable {chain : List TypeName}

theorem nil (s : Snapshot) : s.OpenTypes [] := ⟨List.nodup_nil, List.forall_mem_nil _⟩

theorem cons (h : s.OpenTypes chain) (hclass : (s.category o).isClass)
    (hnew : s.typeName o ∉ chain) : s.OpenTypes (s.typeName o :: chain) :=
  ⟨List.nodup_cons.mpr ⟨hnew, h.nodup⟩,
    List.forall_mem_cons.mpr ⟨typeName_mem_classNames hclass, h.subset⟩⟩

theorem length_le_card (h : s.OpenTypes chain) : chain.length ≤ s.classNames.card := by
  rw [← List.toFinset_card_of_nodup h.nodup]
  exact Finset.card_le_card fun t ht => h.subset t (List.mem_toFinset.mp ht)

/-- Before a class that is not open yet there is room, if there is room for all names. -/
theorem room_pos (h : s.OpenTypes chain) {room : ℕ}
    (hroom : s.classNames.card ≤ chain.length + room) (hclass : (s.category o).isClass)
    (hnew : s.typeName o ∉ chain) : 0 < room := by
  have hlength := (h.cons hclass hnew).length_le_card
  rw [List.length_cons] at hlength
  omega

end OpenTypes
end Snapshot

namespace Extraction
open Snapshot

section
variable {s : Snapshot} {c : Settings} {r : Resolver} {before : List Id} {hidden : Bool} {o : Id}
variable {depth depth' : ℕ}

/-! ## Entries under two limits -/

/-- An object that is expanded under neither limit has the same entry under both. -/
theorem entryAfter_of_not_expanded_both (h : ¬ s.Expanded depth before o)
    (h' : ¬ s.Expanded depth' before o) :
    entryAfter s (c.withDepth depth) r before hidden o =
      entryAfter s (c.withDepth depth') r before hidden o := by
  by_cases hclass : (s.category o).isClass
  · rw [entryAfter_of_not_expanded hclass h, entryAfter_of_not_expanded hclass h']
  · unfold entryAfter
    rw [entryIn.eq_def, entryIn.eq_def s (c.withDepth depth')]
    simp only [if_neg hclass]

theorem withoutMembers_entryAfter (hle : depth ≤ depth') (hlt : before.length < depth) :
    (entryAfter s (c.withDepth depth) r before hidden o).withoutMembers =
      (entryAfter s (c.withDepth depth') r before hidden o).withoutMembers := by
  by_cases hexp : s.Expanded depth before o
  · have htype : entryAfter s (c.withDepth depth) r before hidden o = .type _ _ :=
      entryAfter_of_expanded hexp
    have htype' : entryAfter s (c.withDepth depth') r before hidden o = .type _ _ :=
      entryAfter_of_expanded ((expanded_iff_of_lt hle hlt).mp hexp)
    rw [htype, htype']
    rfl
  · have hexp' : ¬ s.Expanded depth' before o := fun h => hexp ((expanded_iff_of_lt hle hlt).mpr h)
    rw [entryAfter_of_not_expanded_both hexp hexp']

/-- On the level of the smaller limit a type is a reference. -/
theorem entryAfter_of_length_eq (hlength : before.length = depth) {info : TypeInfo}
    {members : Table Entry}
    (h : entryAfter s (c.withDepth depth') r before hidden o = .type info members) :
    (s.category o).isClass ∧ info = typeInfo s hidden o ∧
      entryAfter s (c.withDepth depth) r before hidden o = .typeRef (s.typeName o) := by
  have hexp : s.Expanded depth' before o := by
    by_contra hexp
    have hclassified : Classified s (c.withDepth depth') r before hidden o _ :=
      classified_entryAfter
    rw [h] at hclassified
    cases hclassified with
    | type _ _ hexp' => exact hexp hexp'
  have htype : entryAfter s (c.withDepth depth') r before hidden o = .type _ _ :=
    entryAfter_of_expanded hexp
  have hdeep : ¬ s.Expanded depth before o := fun h => absurd h.shallow (by omega)
  exact ⟨hexp.isClass, (Entry.type.inj (h.symm.trans htype)).1,
    entryAfter_of_not_expanded hexp.isClass hdeep⟩

/-! ## Paths under two limits -/

theorem not_type_at?_rootConstructor (path : List String) (info : TypeInfo)
    (members : Table Entry) : (rootConstructor c).at? path ≠ some (.type info members) := by
  cases path with
  | nil => simp [rootConstructor]
  | cons name path => simp [rootConstructor, Entry.members]

/-- What stands at a path in the entries of one object under two limits. Either it is the same and
no type, or it is the entry of one object that the path leads to, under the one and the other limit.
-/
def MetAt (s : Snapshot) (c : Settings) (r : Resolver) (depth depth' : ℕ) (before : List Id)
    (hidden : Bool) (o : Id) (path : List String) : Prop :=
  ((entryAfter s (c.withDepth depth) r before hidden o).at? path =
      (entryAfter s (c.withDepth depth') r before hidden o).at? path ∧
    ∀ info members,
      (entryAfter s (c.withDepth depth') r before hidden o).at? path ≠ some (.type info members)) ∨
  ∃ passed x, s.walk? o path = some (passed, x) ∧
    (entryAfter s (c.withDepth depth) r before hidden o).at? path =
      some (entryAfter s (c.withDepth depth) r (before ++ passed) (hidden && path.isEmpty) x) ∧
    (entryAfter s (c.withDepth depth') r before hidden o).at? path =
      some (entryAfter s (c.withDepth depth') r (before ++ passed) (hidden && path.isEmpty) x)

/-- A step is made under both limits or under neither. -/
theorem metAt_cons (hle : depth ≤ depth') (hlt : before.length < depth) {name : String}
    {path : List String}
    (hnext : ∀ next, (s.members o).find? name = some next →
      MetAt s c r depth depth' (before ++ [o]) false next path) :
    MetAt s c r depth depth' before hidden o (name :: path) := by
  unfold MetAt
  by_cases hexp : s.Expanded depth before o
  · have hexp' := (expanded_iff_of_lt hle hlt).mp hexp
    cases hfind : (s.members o).find? name with
    | none =>
        have hstep : ∀ limit, (entryAfter s (c.withDepth limit) r before hidden o).at?
            (name :: path) = none := by
          intro limit
          rw [Option.eq_none_iff_forall_ne_some]
          intro e he
          obtain ⟨-, next, hnext⟩ := step_of_at? he
          rw [hfind] at hnext
          cases hnext
        rw [hstep, hstep]
        exact .inl ⟨rfl, fun _ _ => (Option.some_ne_none _).symm⟩
    | some next =>
        rw [at?_step hexp hfind, at?_step hexp' hfind]
        by_cases hroot : isRootConstructor s o name
        · rw [if_pos hroot, if_pos hroot]
          exact .inl ⟨rfl, not_type_at?_rootConstructor path⟩
        · rw [if_neg hroot, if_neg hroot]
          rcases hnext next hfind with hsame | ⟨passed, x, hwalk, hat, hat'⟩
          · exact .inl hsame
          · refine .inr ⟨o :: passed, x, walk?_cons.mpr ⟨next, passed, hfind, hwalk, rfl⟩, ?_⟩
            rw [hat, hat']
            simp
  · have hnone : ∀ limit, ¬ s.Expanded limit before o →
        (entryAfter s (c.withDepth limit) r before hidden o).at? (name :: path) = none := by
      intro limit hlimit
      rw [Entry.at?_cons, members_of_not_expanded hlimit]
      rfl
    rw [hnone depth hexp, hnone depth' fun h => hexp ((expanded_iff_of_lt hle hlt).mpr h)]
    exact .inl ⟨rfl, fun _ _ => (Option.some_ne_none _).symm⟩

/-- No further down than the smaller limit the two entries meet at every path. -/
theorem metAt_of_length_le (hle : depth ≤ depth') (path : List String)
    (hlength : before.length + path.length ≤ depth) :
    MetAt s c r depth depth' before hidden o path := by
  induction path generalizing before hidden o with
  | nil =>
      refine .inr ⟨[], o, rfl, ?_⟩
      simp
  | cons name path ih =>
      rw [List.length_cons] at hlength
      apply metAt_cons hle (by omega)
      intro next _
      apply ih
      rw [List.length_append, List.length_singleton]
      omega

/-! ## Limits that are not reached -/

theorem entryIn_withDepth (r : Resolver) (room : ℕ) (chain : List TypeName) (hidden : Bool)
    (id : Id) :
    entryIn s (c.withDepth depth) r room chain hidden id = entryIn s c r room chain hidden id := by
  induction room generalizing chain hidden id with
  | zero => rw [entryIn, entryIn]
  | succ room ih =>
      have hchild : entryIn s (c.withDepth depth) r room (s.typeName id :: chain) false =
          entryIn s c r room (s.typeName id :: chain) false := funext fun o => ih _ _ o
      rw [entryIn, entryIn, hchild]
      rfl

theorem entryIn_of_opens {chain : List TypeName} (hclass : (s.category o).isClass)
    (hnew : s.typeName o ∉ chain) (room : ℕ) :
    entryIn s c r (room + 1) chain hidden o =
      .type (typeInfo s hidden o)
        (memberEntries s c (entryIn s c r room (s.typeName o :: chain) false) o) := by
  rw [entryIn, if_neg (not_native_of_isClass hclass), if_pos hclass, if_neg hnew]

/-- The entry of an object that is no class, or whose type is open, does not depend on the room. -/
theorem entryIn_of_not_opens {chain : List TypeName}
    (h : (s.category o).isClass → s.typeName o ∈ chain) (room room' : ℕ) :
    entryIn s c r room chain hidden o = entryIn s c r room' chain hidden o := by
  rw [entryIn.eq_def, entryIn.eq_def s c r room']
  dsimp only
  split_ifs with hnative hclass hopen
  case neg => exact absurd (h hclass) hopen
  all_goals rfl

/-- Where there is room for all names, more room changes nothing. -/
theorem entryIn_of_card_le {chain : List TypeName} (hchain : s.OpenTypes chain) {room : ℕ}
    (hroom : s.classNames.card ≤ chain.length + room) (more : ℕ) :
    entryIn s c r (room + more) chain hidden o = entryIn s c r room chain hidden o := by
  induction room generalizing chain hidden o with
  | zero =>
      apply entryIn_of_not_opens
      intro hclass
      by_contra hnew
      exact lt_irrefl 0 (hchain.room_pos hroom hclass hnew)
  | succ room ih =>
      by_cases hopens : (s.category o).isClass ∧ s.typeName o ∉ chain
      · obtain ⟨hclass, hnew⟩ := hopens
        have hroom' : s.classNames.card ≤ (s.typeName o :: chain).length + room := by
          rw [List.length_cons]
          omega
        have hchild : entryIn s c r (room + more) (s.typeName o :: chain) false =
            entryIn s c r room (s.typeName o :: chain) false :=
          funext fun next => ih (hchain.cons hclass hnew) hroom'
        rw [Nat.add_right_comm, entryIn_of_opens hclass hnew, entryIn_of_opens hclass hnew, hchild]
      · exact entryIn_of_not_opens (fun hclass => not_not.mp fun hnew => hopens ⟨hclass, hnew⟩) _ _

theorem mem_memberNotes {child : Id → List Note} {n : Note} (h : n ∈ memberNotes s child o) :
    ∃ id, n ∈ child id := by
  obtain ⟨⟨member, id⟩, -, hn⟩ := List.mem_flatMap.mp h
  dsimp only at hn
  split_ifs at hn
  · cases hn
  · exact ⟨id, hn⟩

theorem notesIn_of_opens {chain : List TypeName} (hclass : (s.category o).isClass)
    (hnew : s.typeName o ∉ chain) (room : ℕ) :
    notesIn s c (room + 1) chain o =
      memberNotes s (notesIn s c room (s.typeName o :: chain)) o := by
  have hopens : ¬ ((s.category o).isNativeCallable || !(s.category o).isClass) := by
    simp [not_native_of_isClass hclass, hclass]
  rw [notesIn, if_neg hopens, if_neg hnew]

/-- Of an object whose type does not open, nothing is noted but that it is open. -/
theorem opens_of_mem_notesIn {chain : List TypeName} {room : ℕ} {n : Note}
    (h : n ∈ notesIn s c room chain o) :
    n = .alreadyOpen (s.typeName o) ∨ (s.category o).isClass ∧ s.typeName o ∉ chain := by
  rw [notesIn.eq_def] at h
  dsimp only at h
  split_ifs at h with hother hopen
  · cases h
  · exact .inl (List.mem_singleton.mp h)
  · rw [Bool.or_eq_true, not_or] at hother
    exact .inr ⟨by simpa using hother.2, hopen⟩

/-- Where there is room for all names, only a type that is open already is not expanded. -/
theorem alreadyOpen_of_mem_notesIn {chain : List TypeName} (hchain : s.OpenTypes chain) {room : ℕ}
    (hroom : s.classNames.card ≤ chain.length + room) {n : Note}
    (h : n ∈ notesIn s c room chain o) : ∃ t, n = .alreadyOpen t := by
  induction room generalizing chain o with
  | zero =>
      rcases opens_of_mem_notesIn h with rfl | ⟨hclass, hnew⟩
      · exact ⟨_, rfl⟩
      · exact absurd (hchain.room_pos hroom hclass hnew) (lt_irrefl 0)
  | succ room ih =>
      rcases opens_of_mem_notesIn h with rfl | ⟨hclass, hnew⟩
      · exact ⟨_, rfl⟩
      · rw [notesIn_of_opens hclass hnew] at h
        obtain ⟨next, hnext⟩ := mem_memberNotes h
        exact ih (hchain.cons hclass hnew) (by rw [List.length_cons]; omega) hnext

theorem entryBy_of_card_le (hcard : s.classNames.card ≤ depth) (more : ℕ) :
    entryBy s (c.withDepth (depth + more)) r hidden o =
      entryBy s (c.withDepth depth) r hidden o := by
  have hroom : s.classNames.card ≤ ([] : List TypeName).length + depth := by
    rw [List.length_nil]
    omega
  calc entryBy s (c.withDepth (depth + more)) r hidden o
      = entryIn s c r (depth + more) [] hidden o := entryIn_withDepth r _ [] hidden o
    _ = entryIn s c r depth [] hidden o := entryIn_of_card_le (.nil s) hroom more
    _ = entryBy s (c.withDepth depth) r hidden o := (entryIn_withDepth r _ [] hidden o).symm

theorem tooDeep_not_mem_notes (hcard : s.classNames.card ≤ depth) (t : TypeName) (n : ℕ) :
    Note.tooDeep t n ∉ notes s (c.withDepth depth) o := by
  intro hnote
  have hroom : s.classNames.card ≤ ([] : List TypeName).length + depth := by
    rw [List.length_nil]
    omega
  obtain ⟨u, hu⟩ := alreadyOpen_of_mem_notesIn (.nil s) hroom hnote
  cases hu

end

/-- The depth limit only cuts, and stops mattering. Of two limits, for any snapshot and resolver:
above the level of the smaller one the entries of an object under both have the same shape and the
same fields; on that level, what is a type under the larger limit is under the smaller one a
reference to the class that the path leads to. A limit that is no less than the number of names of
classes is as good as any larger one, and is never reported as reached. -/
theorem depth_limit_cuts (s : Snapshot) (c : Settings) (r : Resolver) (hidden : Bool) (o : Id)
    {depth depth' : ℕ} (hle : depth ≤ depth') :
    (∀ path : List String, path.length < depth →
      ((entryBy s (c.withDepth depth) r hidden o).at? path).map Entry.withoutMembers =
        ((entryBy s (c.withDepth depth') r hidden o).at? path).map Entry.withoutMembers) ∧
    (∀ (path : List String) info members, path.length = depth →
      (entryBy s (c.withDepth depth') r hidden o).at? path = some (.type info members) →
      ∃ passed x, s.walk? o path = some (passed, x) ∧ (s.category x).isClass ∧
        info = typeInfo s (hidden && path.isEmpty) x ∧
        (entryBy s (c.withDepth depth) r hidden o).at? path = some (.typeRef (s.typeName x))) ∧
    (s.classNames.card ≤ depth →
      entryBy s (c.withDepth depth) r hidden o = entryBy s (c.withDepth depth') r hidden o ∧
      ∀ limit, depth ≤ limit → ∀ t n, Note.tooDeep t n ∉ notes s (c.withDepth limit) o) := by
  have hentry : ∀ limit, entryBy s (c.withDepth limit) r hidden o =
      entryAfter s (c.withDepth limit) r [] hidden o := fun _ => rfl
  have hmet : ∀ path : List String, path.length ≤ depth →
      MetAt s c r depth depth' [] hidden o path := fun path hlength =>
    metAt_of_length_le hle path (by rw [List.length_nil]; omega)
  refine ⟨fun path hlt => ?_, fun path info members hlength htype => ?_, fun hcard => ⟨?_, ?_⟩⟩
  · rw [hentry, hentry]
    rcases hmet path hlt.le with ⟨hsame, -⟩ | ⟨passed, x, hwalk, hat, hat'⟩
    · rw [hsame]
    · rw [hat, hat', Option.map_some, Option.map_some, List.nil_append,
        withoutMembers_entryAfter hle (by rw [length_of_walk? hwalk]; exact hlt)]
  · rw [hentry] at htype ⊢
    rcases hmet path hlength.le with ⟨-, hnone⟩ | ⟨passed, x, hwalk, hat, hat'⟩
    · exact absurd htype (hnone info members)
    · rw [hat', List.nil_append] at htype
      obtain ⟨hclass, hinfo, hcut⟩ :=
        entryAfter_of_length_eq ((length_of_walk? hwalk).trans hlength) (Option.some.inj htype)
      refine ⟨passed, x, hwalk, hclass, hinfo, ?_⟩
      rw [hat, List.nil_append, hcut]
  · obtain ⟨more, rfl⟩ := Nat.exists_eq_add_of_le hle
    exact (entryBy_of_card_le hcard more).symm
  · intro limit hlimit
    exact tooDeep_not_mem_notes (hcard.trans hlimit)

theorem depth_limit_cuts_rootedSnapshot :
    rootedSnapshot.classNames.card = 2 ∧
      (∃ info members, (entryBy rootedSnapshot (({} : Settings).withDepth 2)
          (resolver rootedSnapshot {}) true "C").at? ["base"] = some (.type info members)) ∧
      (entryBy rootedSnapshot (({} : Settings).withDepth 1)
          (resolver rootedSnapshot {}) true "C").at? ["base"] =
        some (.typeRef ⟨"m", "object"⟩) ∧
      entryBy rootedSnapshot (({} : Settings).withDepth 2) (resolver rootedSnapshot {}) true "C" =
        entryBy rootedSnapshot {} (resolver rootedSnapshot {}) true "C" := by
  have hcard : rootedSnapshot.classNames.card = 2 := by decide
  have htype : (entryBy rootedSnapshot (({} : Settings).withDepth 2)
      (resolver rootedSnapshot {}) true "C").at? ["base"] = some (.type _ _) := rfl
  have hcut := depth_limit_cuts rootedSnapshot {} (resolver rootedSnapshot {}) true "C"
    (show 1 ≤ 2 by decide)
  have hsame := depth_limit_cuts rootedSnapshot {} (resolver rootedSnapshot {}) true "C"
    (show 2 ≤ 64 by decide)
  obtain ⟨passed, x, hwalk, -, -, href⟩ := hcut.2.1 ["base"] _ _ rfl htype
  have hx : x = "o" := by
    have hreached : rootedSnapshot.walk? "C" ["base"] = some (["C"], "o") := by decide
    rw [hreached] at hwalk
    exact (Prod.mk.inj (Option.some.inj hwalk)).2.symm
  subst hx
  exact ⟨hcard, ⟨_, _, htype⟩, href, (hsame.2.2 hcard.le).1⟩

end Extraction
end CompletionDb
