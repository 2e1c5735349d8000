import CompletionDb.Proofs.SnapshotGrowth

/-!
# Names in an ancestor list

The ancestors of a class are listed by name. A class with an order of its own has the names of that
order, as they are given. Any other class has the names of the classes that its bases lead to, and
there no class is listed twice; but the search tells classes apart by their ids, and two of them may
share a name. So a list is free of repeats only where a given order has no repeats and the listed
classes have different names, and a snapshot that passes its check need not satisfy either.
-/
namespace CompletionDb

namespace Snapshot
variable {s : Snapshot} {id a : Id}

/-- What the list of a class is made of: the ids in its given order, or those that declared bases
lead to. -/
def ListsAncestor (s : Snapshot) (id a : Id) : Prop :=
  match s.nativeMro id with
  | some order => a ∈ order
  | none => Relation.TransGen (fun cls base => base ∈ s.bases cls) id a

/-- A given order has no repeats, and no two classes in the list of a class share their name. -/
structure DistinctAncestors (s : Snapshot) (id : Id) : Prop where
  order : ∀ order, s.nativeMro id = some order → order.Nodup
  names : ∀ a b, s.ListsAncestor id a → s.ListsAncestor id b → s.typeName a = s.typeName b → a = b

/-- The ids behind the names of an ancestor list. -/
def ancestorIds (s : Snapshot) (id : Id) : List Id :=
  (s.nativeMro id).getD (s.hierarchy.ancestors id)

theorem mem_ancestorIds : a ∈ s.ancestorIds id ↔ s.ListsAncestor id a := by
  have hdeclares : s.hierarchy.Declares = fun cls base => base ∈ s.bases cls := by
    funext cls base
    simp [Hierarchy.Declares]
  unfold ancestorIds ListsAncestor
  cases s.nativeMro id with
  | some order => rfl
  | none =>
      rw [Option.getD_none, Hierarchy.mem_ancestors, Hierarchy.IsAncestor, hdeclares]

theorem nodup_ancestorIds :
    (s.ancestorIds id).Nodup ↔ ∀ order, s.nativeMro id = some order → order.Nodup := by
  unfold ancestorIds
  cases s.nativeMro id with
  | some order => simp
  | none => simp [Hierarchy.nodup_ancestors]

theorem mro_eq_map (s : Snapshot) (id : Id) : s.mro id = (s.ancestorIds id).map s.typeName := rfl

theorem distinctAncestors_of_nodup (h : (s.mro id).Nodup) : s.DistinctAncestors id := by
  rw [mro_eq_map] at h
  have hids : (s.ancestorIds id).Nodup := h.of_map
  refine ⟨nodup_ancestorIds.mp hids, ?_⟩
  intro a b ha hb
  exact (List.nodup_map_iff_inj_on hids).mp h a (mem_ancestorIds.mpr ha) b (mem_ancestorIds.mpr hb)

theorem DistinctAncestors.nodup_mro (h : s.DistinctAncestors id) : (s.mro id).Nodup := by
  rw [mro_eq_map, List.nodup_map_iff_inj_on (nodup_ancestorIds.mpr h.order)]
  intro a ha b hb
  exact h.names a b (mem_ancestorIds.mp ha) (mem_ancestorIds.mp hb)

end Snapshot

namespace Extraction

/-- The ancestor list of a type entry repeats no name exactly where a given order repeats no class
and the listed classes differ in name. -/
theorem mro_nodup_iff_distinctAncestors (s : Snapshot) (hidden : Bool) (id : Id) :
    (typeInfo s hidden id).mro.Nodup ↔ s.DistinctAncestors id := by
  constructor
  · intro hnodup
    exact Snapshot.distinctAncestors_of_nodup hnodup
  · intro hdistinct
    exact hdistinct.nodup_mro

/-- A snapshot document with a class whose given order ends with a class twice, and one without an
order that has two bases of one name. -/
def repeatingDocument : Data :=
  .object [
    ("well_known", .object (["root_object", "function", "builtin_function", "builtin_method",
      "generator", "none", "ellipsis"].map (·, .text "object"))),
    ("objects", .object [
      ("A1", .object [("category", .text "legacy_class"), ("module", .text "m"),
        ("name", .text "A")]),
      ("A2", .object [("category", .text "legacy_class"), ("module", .text "m"),
        ("name", .text "A")]),
      ("C", .object [("category", .text "class"), ("module", .text "m"), ("name", .text "C"),
        ("mro", .list [.text "C", .text "object", .text "object"]),
        ("bases", .list [.text "object"])]),
      ("L", .object [("category", .text "legacy_class"), ("module", .text "m"),
        ("name", .text "L"), ("bases", .list [.text "A1", .text "A2"])]),
      ("object", .object [("category", .text "class"), ("module", .text "builtins"),
        ("name", .text "object")])])]

/-- Both classes of the document repeat a name, and the document is loaded all the same. -/
theorem mro_repeats_name :
    ∃ s, Snapshot.ofDocument repeatingDocument = .ok s ∧
      ((s.category "C").isClass ∧ ¬ (typeInfo s false "C").mro.Nodup) ∧
      (s.category "L").isClass ∧ ¬ (typeInfo s false "L").mro.Nodup := by
  have hfacts : ((Snapshot.ofDocument repeatingDocument).toOption.map fun s =>
      (((s.category "C").isClass, s.nativeMro "C"), ((s.category "L").isClass, s.nativeMro "L"),
        s.bases "L", s.typeName "A1", s.typeName "A2")) =
      some ((true, some ["C", "object", "object"]), (true, none), ["A1", "A2"], ⟨"m", "A"⟩,
        ⟨"m", "A"⟩) := by decide +kernel
  cases hload : Snapshot.ofDocument repeatingDocument with
  | error e =>
      rw [hload] at hfacts
      cases hfacts
  | ok s =>
      rw [hload] at hfacts
      simp only [Except.toOption, Option.map_some, Option.some.injEq, Prod.mk.injEq] at hfacts
      obtain ⟨⟨hC, horder⟩, ⟨hL, hnone⟩, hbases, hA1, hA2⟩ := hfacts
      refine ⟨s, rfl, ⟨hC, fun hnodup => ?_⟩, hL, fun hnodup => ?_⟩
      · have hrepeats := (Snapshot.distinctAncestors_of_nodup hnodup).order _ horder
        exact absurd hrepeats (by decide)
      · have hlists : ∀ a ∈ s.bases "L", s.ListsAncestor "L" a := by
          intro a ha
          rw [Snapshot.ListsAncestor, hnone]
          exact .single ha
        rw [hbases] at hlists
        have hdistinct := Snapshot.distinctAncestors_of_nodup hnodup
        have hsame := hdistinct.names "A1" "A2" (hlists _ (by simp)) (hlists _ (by simp))
          (hA1.trans hA2.symm)
        exact absurd hsame (by decide)

end Extraction
end CompletionDb
