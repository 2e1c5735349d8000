import CompletionDb.Extraction.Entry
import CompletionDb.Proofs.MemberPath

/-!
# What extraction puts at every path

The object graph of a snapshot may be cyclic; the entry of an object is a finite tree. A path of
member names leads through both, and this module says what stands at it in the tree by what it
passes in the graph. A walk gets on from an object only where that object is expanded: it is a
class, no object before it on the walk has its type name, and fewer objects than the depth limit
stand before it. Type names decide, not ids: two classes of one name are never expanded inside each
other.

The one exception is the constructor of the root object. Its entry is fixed, so the object that the
snapshot gives for it is not looked at.
-/
namespace CompletionDb

/-! ## Walks in a snapshot -/

namespace Snapshot

/-- Follow declared members from an object: the objects left behind, in order, and the one reached.
-/
def walk? (s : Snapshot) : Id → List String → Option (List Id × Id)
  | o, [] => some ([], o)
  | o, name :: path =>
    ((s.members o).find? name).bind fun next =>
      (s.walk? next path).map fun (passed, last) => (o :: passed, last)

theorem walk?_cons {s : Snapshot} {o last : Id} {name : String} {path : List String}
    {passed : List Id} :
    s.walk? o (name :: path) = some (passed, last) ↔
      ∃ next rest, (s.members o).find? name = some next ∧ s.walk? next path = some (rest, last) ∧
        passed = o :: rest := by
  rw [walk?]
  cases (s.members o).find? name with
  | none => simp
  | some next =>
      simp only [Option.bind_some, Option.map_eq_some_iff, Prod.exists, Prod.mk.injEq,
        Option.some.injEq]
      constructor
      · rintro ⟨rest, x, hwalk, rfl, rfl⟩
        exact ⟨next, rest, rfl, hwalk, rfl⟩
      · rintro ⟨_, rest, rfl, hwalk, rfl⟩
        exact ⟨rest, last, hwalk, rfl, rfl⟩

/-- An object that comes after others is expanded. -/
structure Expanded (s : Snapshot) (depth : ℕ) (before : List Id) (o : Id) : Prop where
  isClass : (s.category o).isClass
  fresh : ∀ p ∈ before, s.typeName p ≠ s.typeName o
  shallow : before.length < depth

/-- Objects that come after others are all expanded, each after those before it. -/
def AllExpanded (s : Snapshot) (depth : ℕ) : (before : List Id) → List Id → Prop
  | _, [] => True
  | before, o :: rest => s.Expanded depth before o ∧ s.AllExpanded depth (before ++ [o]) rest

theorem AllExpanded.last {s : Snapshot} {depth : ℕ} {before passed : List Id} {o : Id}
    (h : s.AllExpanded depth before (passed ++ [o])) : s.Expanded depth (before ++ passed) o := by
  induction passed generalizing before with
  | nil => simpa using h.1
  | cons p passed ih => simpa using ih h.2

/-- A path to an occurrence of the root object that is expanded, with all before it, and declares
a constructor. -/
def ReachesConstructor (s : Snapshot) (depth : ℕ) (before : List Id) (o : Id)
    (path : List String) : Prop :=
  ∃ passed, s.walk? o path = some (passed, s.wellKnown.rootObject) ∧
    s.AllExpanded depth before (passed ++ [s.wellKnown.rootObject]) ∧
    ((s.members s.wellKnown.rootObject).find? Extraction.constructorName).isSome

end Snapshot

namespace Extraction
open Snapshot

section
variable (s : Snapshot) (c : Settings) (r : Resolver)

/-- The entry of an object that comes after others, in terms of these: they are the open expansions,
and each takes up one level of the limit. -/
def entryAfter (before : List Id) (hidden : Bool) (o : Id) : Entry :=
  entryIn s c r (c.maxTypeDepth - before.length) ((before.map s.typeName).reverse) hidden o

/-- What the entry of an object is, by the order of the checks. Of a type only its own fields are
told: its members are entries at longer paths. -/
inductive Classified (before : List Id) (hidden : Bool) (o : Id) : Entry → Prop
  | function : (s.category o).isNativeCallable →
      Classified before hidden o (.function (r.callable s o))
  | type (members : Table Entry) : ¬ (s.category o).isNativeCallable →
      s.Expanded c.maxTypeDepth before o →
      Classified before hidden o (.type (typeInfo s hidden o) members)
  | typeRef : ¬ (s.category o).isNativeCallable → (s.category o).isClass →
      ¬ s.Expanded c.maxTypeDepth before o →
      Classified before hidden o (.typeRef (s.typeName o))
  | method : ¬ (s.category o).isNativeCallable → ¬ (s.category o).isClass →
      (s.category o).isMethod → Classified before hidden o (.method (r.callable s o))
  | property : ¬ (s.category o).isNativeCallable → ¬ (s.category o).isClass →
      ¬ (s.category o).isMethod → (s.category o).isAccessor →
      Classified before hidden o (.property (r.property s o))
  | data : ¬ (s.category o).isNativeCallable → ¬ (s.category o).isClass →
      ¬ (s.category o).isMethod → ¬ (s.category o).isAccessor →
      Classified before hidden o (.data (datum s o))

end

section
variable {s : Snapshot} {c : Settings} {r : Resolver} {before : List Id} {hidden : Bool} {o : Id}

theorem not_native_of_isClass {k : Category} (h : k.isClass) : ¬ k.isNativeCallable := by
  cases k <;> simp_all [Category.isClass, Category.isNativeCallable]

/-- An expanded object is a type, and its members are entries of what comes after it. -/
theorem entryAfter_of_expanded (h : s.Expanded c.maxTypeDepth before o) :
    entryAfter s c r before hidden o =
      .type (typeInfo s hidden o)
        (memberEntries s c (entryAfter s c r (before ++ [o]) false) o) := by
  have hroom : c.maxTypeDepth - before.length = c.maxTypeDepth - (before ++ [o]).length + 1 := by
    have hlt := h.shallow
    simp only [List.length_append, List.length_singleton]
    omega
  have hchain : s.typeName o ∉ (before.map s.typeName).reverse := by
    simp only [List.mem_reverse, List.mem_map, not_exists, not_and]
    exact h.fresh
  have hnext : s.typeName o :: (before.map s.typeName).reverse =
      ((before ++ [o]).map s.typeName).reverse := by simp
  unfold entryAfter
  rw [hroom, entryIn, if_neg (not_native_of_isClass h.isClass), if_pos h.isClass, if_neg hchain,
    hnext]

/-- A class that is not expanded is recorded as a reference. -/
theorem entryAfter_of_not_expanded (hclass : (s.category o).isClass)
    (h : ¬ s.Expanded c.maxTypeDepth before o) :
    entryAfter s c r before hidden o = .typeRef (s.typeName o) := by
  rw [entryAfter, entryIn.eq_def]
  dsimp only
  rw [if_neg (not_native_of_isClass hclass), if_pos hclass]
  split
  · rfl
  · rename_i hchain
    -- The name is new, so it is the limit that stops the expansion.
    have hdepth : c.maxTypeDepth - before.length = 0 := by
      by_contra hne
      refine h ⟨hclass, ?_, by omega⟩
      intro p hp heq
      exact hchain (by simpa using ⟨p, hp, heq⟩)
    rw [hdepth]

theorem classified_entryAfter :
    Classified s c r before hidden o (entryAfter s c r before hidden o) := by
  by_cases hnative : (s.category o).isNativeCallable
  · have hfunction : entryAfter s c r before hidden o = .function (r.callable s o) := by
      rw [entryAfter, entryIn.eq_def]
      exact if_pos hnative
    rw [hfunction]
    exact .function hnative
  by_cases hclass : (s.category o).isClass
  · by_cases hexp : s.Expanded c.maxTypeDepth before o
    · rw [entryAfter_of_expanded hexp]
      exact .type _ hnative hexp
    · rw [entryAfter_of_not_expanded hclass hexp]
      exact .typeRef hnative hclass hexp
  have hrest : entryAfter s c r before hidden o =
      if (s.category o).isMethod then .method (r.callable s o)
      else if (s.category o).isAccessor then .property (r.property s o)
      else .data (datum s o) := by
    rw [entryAfter, entryIn.eq_def]
    dsimp only
    rw [if_neg hnative, if_neg hclass]
  rw [hrest]
  split
  · exact .method hnative hclass ‹_›
  · split
    · exact .property hnative hclass ‹_› ‹_›
    · exact .data hnative hclass ‹_› ‹_›

/-! ## One step -/

theorem members_of_not_expanded (h : ¬ s.Expanded c.maxTypeDepth before o) :
    (entryAfter s c r before hidden o).members = [] := by
  have hc : Classified s c r before hidden o _ := classified_entryAfter
  generalize entryAfter s c r before hidden o = e at hc ⊢
  cases hc with
  | type _ _ hexp => exact absurd hexp h
  | _ => rfl

theorem isRootConstructor_iff {name : String} :
    isRootConstructor s o name ↔ o = s.wellKnown.rootObject ∧ name = constructorName := by
  simp [isRootConstructor]

theorem find?_memberEntries (child : Id → Entry) (name : String) :
    Table.find? (memberEntries s c child o) name = ((s.members o).find? name).map fun id =>
      if isRootConstructor s o name then rootConstructor c else child id :=
  Table.find?_map (fun member id => if isRootConstructor s o member then rootConstructor c
    else child id) (s.members o) name

/-- A step from an expanded object to a member that it declares. -/
theorem at?_step (h : s.Expanded c.maxTypeDepth before o) {name : String} {next : Id}
    (hnext : (s.members o).find? name = some next) (path : List String) :
    (entryAfter s c r before hidden o).at? (name :: path) =
      (if isRootConstructor s o name then rootConstructor c
        else entryAfter s c r (before ++ [o]) false next).at? path := by
  rw [entryAfter_of_expanded h, Entry.at?_cons, Entry.members, find?_memberEntries, hnext]
  rfl

/-- Below an entry there is something only by such a step. -/
theorem step_of_at? {name : String} {path : List String} {e : Entry}
    (h : (entryAfter s c r before hidden o).at? (name :: path) = some e) :
    s.Expanded c.maxTypeDepth before o ∧ ∃ next, (s.members o).find? name = some next := by
  by_cases hexp : s.Expanded c.maxTypeDepth before o
  · refine ⟨hexp, ?_⟩
    rw [entryAfter_of_expanded hexp, Entry.at?_cons, Entry.members, find?_memberEntries] at h
    cases hnext : (s.members o).find? name with
    | none => simp [hnext] at h
    | some next => exact ⟨next, rfl⟩
  · rw [Entry.at?_cons, members_of_not_expanded hexp] at h
    simp at h

theorem reachesConstructor_nil (h : s.Expanded c.maxTypeDepth before s.wellKnown.rootObject)
    {next : Id} (hnext : (s.members s.wellKnown.rootObject).find? constructorName = some next) :
    s.ReachesConstructor c.maxTypeDepth before s.wellKnown.rootObject [] :=
  ⟨[], rfl, ⟨h, trivial⟩, by rw [hnext]; rfl⟩

theorem reachesConstructor_cons (h : s.Expanded c.maxTypeDepth before o) {name : String} {next : Id}
    (hnext : (s.members o).find? name = some next) {path : List String}
    (hreach : s.ReachesConstructor c.maxTypeDepth (before ++ [o]) next path) :
    s.ReachesConstructor c.maxTypeDepth before o (name :: path) := by
  obtain ⟨passed, hwalk, hexp, hdeclared⟩ := hreach
  exact ⟨o :: passed, walk?_cons.mpr ⟨next, passed, hnext, hwalk, rfl⟩, ⟨h, hexp⟩, hdeclared⟩

/-! ## Whole paths -/

/-- The constructor of the root object is fixed, and nothing lies below it. The root object is not
passed before: no second occurrence of it is expanded. -/
theorem at?_constructor {above : List String}
    (h : s.ReachesConstructor c.maxTypeDepth before o above) (below : List String) :
    (entryAfter s c r before hidden o).at? (above ++ constructorName :: below) =
      if below = [] then some (rootConstructor c) else none := by
  induction above generalizing before o hidden with
  | nil =>
      obtain ⟨passed, hwalk, hexp, hdeclared⟩ := h
      obtain ⟨rfl, rfl⟩ : [] = passed ∧ o = s.wellKnown.rootObject := by simpa [walk?] using hwalk
      obtain ⟨next, hnext⟩ := Option.isSome_iff_exists.mp hdeclared
      rw [List.nil_append, at?_step hexp.1 hnext,
        if_pos (isRootConstructor_iff.mpr ⟨rfl, rfl⟩)]
      cases below with
      | nil => rfl
      | cons name below => rfl
  | cons name above ih =>
      obtain ⟨passed, hwalk, hexp, hdeclared⟩ := h
      obtain ⟨next, rest, hnext, hrest, rfl⟩ := walk?_cons.mp hwalk
      -- If the root object were passed here, its occurrence at the end would repeat its name.
      have hroot : ¬ isRootConstructor s o name := by
        rw [isRootConstructor_iff]
        rintro ⟨rfl, -⟩
        exact hexp.last.fresh _ (by simp) rfl
      rw [List.cons_append, at?_step hexp.1 hnext, if_neg hroot]
      exact ih ⟨rest, hrest, hexp.2, hdeclared⟩

/-- Where the fixed constructor is not on the path, an expanded walk leads to the entry of the
object that it reaches. -/
theorem at?_of_walk {path : List String} {passed : List Id} {x : Id}
    (hfree : ∀ above below, path = above ++ constructorName :: below →
      ¬ s.ReachesConstructor c.maxTypeDepth before o above)
    (hwalk : s.walk? o path = some (passed, x))
    (hexp : s.AllExpanded c.maxTypeDepth before passed) :
    (entryAfter s c r before hidden o).at? path =
      some (entryAfter s c r (before ++ passed) (hidden && path.isEmpty) x) := by
  induction path generalizing before o hidden passed with
  | nil =>
      obtain ⟨rfl, rfl⟩ : [] = passed ∧ o = x := by simpa [walk?] using hwalk
      simp
  | cons name path ih =>
      obtain ⟨next, rest, hnext, hrest, rfl⟩ := walk?_cons.mp hwalk
      have hroot : ¬ isRootConstructor s o name := by
        rw [isRootConstructor_iff]
        rintro ⟨rfl, rfl⟩
        exact hfree [] path rfl (reachesConstructor_nil hexp.1 hnext)
      rw [at?_step hexp.1 hnext, if_neg hroot, ih ?_ hrest hexp.2]
      · simp
      · rintro above below rfl hreach
        exact hfree (name :: above) below rfl (reachesConstructor_cons hexp.1 hnext hreach)

/-- Conversely an entry at such a path comes from an expanded walk. -/
theorem walk_of_at? {path : List String} {e : Entry}
    (hfree : ∀ above below, path = above ++ constructorName :: below →
      ¬ s.ReachesConstructor c.maxTypeDepth before o above)
    (h : (entryAfter s c r before hidden o).at? path = some e) :
    ∃ passed x, s.walk? o path = some (passed, x) ∧
      s.AllExpanded c.maxTypeDepth before passed := by
  induction path generalizing before o hidden with
  | nil => exact ⟨[], o, rfl, trivial⟩
  | cons name path ih =>
      obtain ⟨hexp, next, hnext⟩ := step_of_at? h
      have hroot : ¬ isRootConstructor s o name := by
        rw [isRootConstructor_iff]
        rintro ⟨rfl, rfl⟩
        exact hfree [] path rfl (reachesConstructor_nil hexp hnext)
      rw [at?_step hexp hnext, if_neg hroot] at h
      obtain ⟨passed, x, hwalk, hrest⟩ := ih (fun above below hpath hreach =>
        hfree (name :: above) below (by rw [hpath]; rfl)
          (reachesConstructor_cons hexp hnext hreach)) h
      exact ⟨o :: passed, x, walk?_cons.mpr ⟨next, passed, hnext, hwalk, rfl⟩, hexp, hrest⟩

end

/-- The entry of an object at every path, for any resolver. On a path that takes the constructor of
the root object, from an occurrence that is expanded as all before it are, stand the fixed entry and
nothing below. On every other path stands an entry exactly where an expanded walk leads, and it is
the one that the checks give the object reached. The flag for hidden types goes to the first object
only. -/
theorem entry_at_path (s : Snapshot) (c : Settings) (r : Resolver) (hidden : Bool) (o : Id)
    (path : List String) :
    (∀ above below, path = above ++ constructorName :: below →
      s.ReachesConstructor c.maxTypeDepth [] o above →
      (entryBy s c r hidden o).at? path = if below = [] then some (rootConstructor c) else none) ∧
    ((∀ above below, path = above ++ constructorName :: below →
        ¬ s.ReachesConstructor c.maxTypeDepth [] o above) →
      (((entryBy s c r hidden o).at? path).isSome ↔ ∃ passed x,
        s.walk? o path = some (passed, x) ∧ s.AllExpanded c.maxTypeDepth [] passed) ∧
      ∀ passed x, s.walk? o path = some (passed, x) → s.AllExpanded c.maxTypeDepth [] passed →
        ∃ e, (entryBy s c r hidden o).at? path = some e ∧
          Classified s c r passed (hidden && path.isEmpty) x e) := by
  have hentry : entryBy s c r hidden o = entryAfter s c r [] hidden o := rfl
  rw [hentry]
  refine ⟨?_, fun hfree => ⟨⟨?_, ?_⟩, ?_⟩⟩
  · rintro above below rfl hreach
    exact at?_constructor hreach below
  · intro hsome
    obtain ⟨e, he⟩ := Option.isSome_iff_exists.mp hsome
    exact walk_of_at? hfree he
  · rintro ⟨passed, x, hwalk, hexp⟩
    rw [at?_of_walk hfree hwalk hexp]
    rfl
  · intro passed x hwalk hexp
    refine ⟨_, at?_of_walk hfree hwalk hexp, ?_⟩
    rw [List.nil_append]
    exact classified_entryAfter

/-- A class whose member `base` is the root object, which is a member of itself. -/
def rootedSnapshot : Snapshot where
  wellKnown := ⟨"o", "o", "o", "o", "o", "o", "o"⟩
  objects := [
    ("C", { category := .plainClass, module := some "m", name := some "C",
            members := [("base", "o")] }),
    ("o", { category := .plainClass, module := some "m", name := some "object",
            members := [("__new__", "C"), ("self", "o")] })]

theorem rootedSnapshot_expanded : rootedSnapshot.AllExpanded 64 [] ["C", "o"] :=
  ⟨⟨by decide, by decide, by decide⟩, ⟨by decide, by decide, by decide⟩, trivial⟩

theorem entry_at_path_rootedSnapshot :
    (rootedSnapshot.ReachesConstructor 64 [] "C" ["base"] ∧
      (entryBy rootedSnapshot {} (resolver rootedSnapshot {}) true "C").at? ["base", "__new__"] =
        some (rootConstructor {})) ∧
      rootedSnapshot.walk? "C" ["base", "self"] = some (["C", "o"], "o") ∧
      ∃ e, (entryBy rootedSnapshot {} (resolver rootedSnapshot {}) true "C").at?
          ["base", "self"] = some e ∧
        Classified rootedSnapshot {} (resolver rootedSnapshot {}) ["C", "o"] false "o" e := by
  have hreach : rootedSnapshot.ReachesConstructor 64 [] "C" ["base"] :=
    ⟨["C"], by decide, rootedSnapshot_expanded, by decide⟩
  have hfree : ∀ above below, ["base", "self"] = above ++ constructorName :: below →
      ¬ rootedSnapshot.ReachesConstructor 64 [] "C" above := by
    intro above below hpath
    have hmem : constructorName ∈ ["base", "self"] := by simp [hpath]
    exact absurd hmem (by decide)
  have hwalk : rootedSnapshot.walk? "C" ["base", "self"] = some (["C", "o"], "o") := by decide
  exact ⟨⟨hreach, (entry_at_path rootedSnapshot {} _ true "C" _).1 ["base"] [] rfl hreach⟩, hwalk,
    ((entry_at_path rootedSnapshot {} _ true "C" _).2 hfree).2 _ _ hwalk rootedSnapshot_expanded⟩

end Extraction
end CompletionDb
