import CompletionDb.Extraction.Provider
import CompletionDb.Proofs.RecordLimits
import CompletionDb.Snapshot.Fault

/-!
# Records that are extracted

The member tables of a snapshot ascend, because they are read from a document as maps. Extraction
keeps their order, so the records of a snapshot are ordered at every depth. It nests types as deep
as the settings allow and no deeper.
-/
namespace CompletionDb

/-- The member tables of a snapshot ascend. -/
structure Snapshot.Ordered (s : Snapshot) : Prop where
  modules : ∀ m ∈ s.modules, m.2.members.Ascending
  objects : ∀ o ∈ s.objects, o.2.members.Ascending

instance (s : Snapshot) : Decidable s.Ordered :=
  decidable_of_iff ((∀ m ∈ s.modules, m.2.members.Ascending) ∧
      ∀ o ∈ s.objects, o.2.members.Ascending)
    ⟨fun h => ⟨h.1, h.2⟩, fun h => ⟨h.modules, h.objects⟩⟩

/-! ## Snapshots that are read -/

section
open Data

/-- A table that is read ascends, and its values are read one by one. -/
theorem Data.tableOf?_eq_some {α : Type} {room : ℕ} {value : Data → Option α} {d : Data}
    {table : Table α} (h : tableOf? room value d = some table) :
    table.Ascending ∧ ∀ m ∈ table, ∃ d', value d' = some m.2 := by
  simp only [tableOf?, Option.bind_eq_bind, Option.bind_eq_some_iff, Option.pure_def,
    Option.some.injEq] at h
  obtain ⟨entries, -, pairs, hpairs, rfl⟩ := h
  refine ⟨Table.ascending_ofList pairs, fun m hm => ?_⟩
  obtain ⟨entry, -, hentry⟩ := (read_of_mapM hpairs).2 m (Table.mem_of_mem_ofList hm)
  simp only [entryOf?, Option.bind_eq_bind, Option.bind_eq_some_iff, Option.pure_def,
    Option.some.injEq] at hentry
  obtain ⟨key, -, v, hv, rfl⟩ := hentry
  exact ⟨entry.2, hv⟩

theorem Data.fieldOr_tableOf?_eq_some {α : Type} {room : ℕ} {value : Data → Option α}
    {field : Option Data} {table : Table α}
    (h : fieldOr [] (tableOf? room value) field = some table) :
    table.Ascending ∧ ∀ m ∈ table, ∃ d, value d = some m.2 := by
  cases field with
  | none =>
      cases h
      exact ⟨List.Pairwise.nil, nofun⟩
  | some d => exact tableOf?_eq_some h

theorem Namespace.ascending_of_ofData? {room : ℕ} {d : Data} {n : Namespace}
    (h : Namespace.ofData? room d = some n) : n.members.Ascending := by
  unfold Namespace.ofData? at h
  simp only [Option.bind_eq_bind, Option.bind_eq_some_iff] at h
  obtain ⟨fields, -, h⟩ := h
  split at h
  · simp only [Option.bind_eq_some_iff, Option.pure_def, Option.some.injEq] at h
    obtain ⟨doc, -, members, hmembers, rfl⟩ := h
    exact (fieldOr_tableOf?_eq_some hmembers).1
  · cases h

theorem Object.ascending_of_ofData? {room : ℕ} {d : Data} {o : Object}
    (h : Object.ofData? room d = some o) : o.members.Ascending := by
  unfold Object.ofData? at h
  rcases Option.bind_eq_some_iff.mp h with ⟨fields, -, h⟩
  split at h
  · iterate 7 rcases Option.bind_eq_some_iff.mp h with ⟨_, -, h⟩
    rcases Option.bind_eq_some_iff.mp h with ⟨members, hmembers, h⟩
    iterate 3 rcases Option.bind_eq_some_iff.mp h with ⟨_, -, h⟩
    cases h
    exact (fieldOr_tableOf?_eq_some hmembers).1
  · cases h

theorem Snapshot.ordered_of_ofData? {room : ℕ} {d : Data} {s : Snapshot}
    (h : Snapshot.ofData? room d = some s) : s.Ordered := by
  unfold Snapshot.ofData? at h
  simp only [Option.bind_eq_bind, Option.bind_eq_some_iff] at h
  obtain ⟨fields, -, h⟩ := h
  split at h
  · simp only [Option.bind_eq_some_iff, Option.pure_def, Option.some.injEq] at h
    obtain ⟨_, -, _, -, modules, hmodules, objects, hobjects, rfl⟩ := h
    constructor
    · intro m hm
      obtain ⟨d', hd'⟩ := (fieldOr_tableOf?_eq_some hmodules).2 m hm
      exact Namespace.ascending_of_ofData? hd'
    · intro o ho
      obtain ⟨d', hd'⟩ := (fieldOr_tableOf?_eq_some hobjects).2 o ho
      exact Object.ascending_of_ofData? hd'
  · cases h

theorem Snapshot.eq_of_check {s s' : Snapshot} (h : s.check = .ok s') : s = s' := by
  unfold Snapshot.check at h
  split at h
  · exact Except.ok.inj h
  · cases h

/-- Whatever is loaded, from a text or as a document, is ordered. -/
theorem Snapshot.ordered_of_ofDocument {d : Data} {s : Snapshot}
    (h : Snapshot.ofDocument d = .ok s) : s.Ordered := by
  unfold Snapshot.ofDocument at h
  cases hread : Snapshot.ofData? Json.maxDepth d with
  | none =>
      rw [hread] at h
      cases h
  | some s' =>
      rw [hread] at h
      rw [← Snapshot.eq_of_check h]
      exact Snapshot.ordered_of_ofData? hread

end

/-! ## Entries and records -/

theorem Snapshot.Ordered.members {s : Snapshot} (hs : s.Ordered) (id : Id) :
    (s.members id).Ascending := by
  unfold Snapshot.members
  cases hobject : s.object? id with
  | none => exact List.Pairwise.nil
  | some o => exact hs.objects _ (Table.mem_of_find? hobject)

namespace Extraction
variable {s : Snapshot} {c : Settings}

theorem keys_memberEntries (s : Snapshot) (c : Settings) (child : Id → Entry) (cls : Id) :
    (memberEntries s c child cls).keys = (s.members cls).keys := by
  rw [Table.keys, memberEntries, List.map_map]
  rfl

theorem mem_memberEntries {child : Id → Entry} {cls : Id} {m : String × Entry}
    (h : m ∈ memberEntries s c child cls) :
    m.2 = rootConstructor c ∨ ∃ id, m.2 = child id := by
  obtain ⟨⟨member, id⟩, -, rfl⟩ := List.mem_map.mp h
  dsimp only
  split_ifs
  · exact .inl rfl
  · exact .inr ⟨id, rfl⟩

/-- Extracted entries are ordered, and nest as many types as there is room for. -/
theorem ordered_entryIn (hs : s.Ordered) (r : Resolver) (room : ℕ) (chain : List TypeName)
    (hidden : Bool) (id : Id) :
    (entryIn s c r room chain hidden id).Ordered ∧
      (entryIn s c r room chain hidden id).Within room := by
  induction room generalizing chain hidden id with
  | zero =>
      rw [entryIn]
      split_ifs <;> exact ⟨trivial, trivial⟩
  | succ room ih =>
      rw [entryIn]
      split_ifs
      · exact ⟨trivial, trivial⟩
      · exact ⟨trivial, trivial⟩
      · have hmembers : ∀ m ∈ memberEntries s c
            (entryIn s c r room (s.typeName id :: chain) false) id,
            m.2.Ordered ∧ m.2.Within room := by
          intro m hm
          rcases mem_memberEntries hm with heq | ⟨member, heq⟩
          · rw [heq]
            exact ⟨trivial, by cases room <;> trivial⟩
          · rw [heq]
            exact ih _ _ member
        constructor
        · rw [Entry.ordered_type, Table.Ascending, keys_memberEntries]
          exact ⟨hs.members id, fun m hm => (hmembers m hm).1⟩
        · exact fun m hm => (hmembers m hm).2
      · exact ⟨trivial, trivial⟩
      · exact ⟨trivial, trivial⟩
      · exact ⟨trivial, trivial⟩

/-- Ordered, with types nested no deeper than the settings allow. -/
structure Regular (c : Settings) (r : Record) : Prop where
  ordered : r.Ordered
  within : r.Within c.maxTypeDepth

theorem regular_iff {r : Record} :
    Regular c r ↔
      r.members.Ascending ∧ ∀ m ∈ r.members, m.2.Ordered ∧ m.2.Within c.maxTypeDepth := by
  constructor
  · rintro ⟨⟨hasc, hord⟩, hwithin⟩
    exact ⟨hasc, fun m hm => ⟨Entry.orderedTable_iff.mp hord m hm, hwithin m hm⟩⟩
  · rintro ⟨hasc, hmem⟩
    exact ⟨⟨hasc, Entry.orderedTable_iff.mpr fun m hm => (hmem m hm).1⟩, fun m hm => (hmem m hm).2⟩

theorem regular_recordOf (hs : s.Ordered) {n : Namespace} (hn : n.members.Ascending) :
    Regular c (recordOf s c n) := by
  rw [regular_iff]
  constructor
  · rw [Table.Ascending, Table.keys, recordOf, List.map_map]
    exact hn
  · rw [recordOf, List.forall_mem_map]
    exact fun m _ => ordered_entryIn hs _ _ _ _ _

/-- What holds of the members of a record and is kept when a hidden entry takes its place among them
holds with all hidden entries. -/
theorem withHidden_induction {P : Table Entry → Prop} {r : Record} (hr : P r.members)
    (hinsert : ∀ p ∈ s.wellKnown.hiddenEntries, ∀ members, P members →
      P (Table.insert p.1 (entry s c true p.2) members)) : P (withHidden s c r).members :=
  List.foldlRecOn _ _ hr fun members hmembers p hp => hinsert p hp members hmembers

theorem regular_withHidden (hs : s.Ordered) {r : Record} (h : Regular c r) :
    Regular c (withHidden s c r) := by
  rw [regular_iff] at h ⊢
  refine withHidden_induction (P := fun members =>
    members.Ascending ∧ ∀ m ∈ members, m.2.Ordered ∧ m.2.Within c.maxTypeDepth) h ?_
  intro p _ members hmembers
  refine ⟨Table.ascending_insert hmembers.1, ?_⟩
  intro m hm
  rcases Table.mem_insert hm with rfl | hm
  · exact ordered_entryIn hs _ _ _ _ _
  · exact hmembers.2 m hm

theorem eq_some_of_found {module : String} {lines lines' : List LogLine} {found? : Option Record}
    {r : Record} (h : found module lines found? = .ok (r, lines')) : found? = some r := by
  cases found? with
  | none => cases h
  | some r' =>
      cases h
      rfl

theorem regular_record? (hs : s.Ordered) {module : String} {r : Record}
    (h : record? s c module = some r) : Regular c r := by
  obtain ⟨n, hn, rfl⟩ := Option.map_eq_some_iff.mp h
  exact regular_recordOf hs (hs.modules _ (Table.mem_of_find? hn))

/-- What a snapshot provides is ordered and within the depth of the settings. -/
theorem regular_extract (hs : s.Ordered) {module : String} {r : Record} {lines : List LogLine}
    (h : (provider s c).extract module = .ok (r, lines)) : Regular c r :=
  regular_record? hs (eq_some_of_found h)

theorem regular_extractBuiltin (hs : s.Ordered) {module : String} {r : Record}
    {lines : List LogLine} (h : (provider s c).extractBuiltin module = .ok (r, lines)) :
    Regular c r := by
  obtain ⟨plain, hplain, rfl⟩ := Option.map_eq_some_iff.mp (eq_some_of_found h)
  exact regular_withHidden hs (regular_record? hs hplain)

end Extraction
end CompletionDb
