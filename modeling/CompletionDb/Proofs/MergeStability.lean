import CompletionDb.Proofs.MergeByPath
import CompletionDb.Proofs.RecordLayout

/-!
# Merging once more

What a merge gives is stable: merged with its own fresh record it stays as it is. The fresh record
takes from the merged one what it lacks, and that is what was taken from the baseline before.

This needs tables without repeated keys, at every depth. With repeats, the first entry under a key
would be merged with every later one.
-/
namespace CompletionDb

namespace Merge
variable (placeholder : TypeName)

theorem table_eq_map (base fresh : Table Entry) :
    table placeholder base fresh =
      fresh.map fun m => (m.1, withBase placeholder (base.find? m.1) m.2) := by
  induction fresh with
  | nil => rfl
  | cons m fresh ih =>
      obtain ⟨name, e⟩ := m
      simp [ih]

@[simp] theorem keys_table (base fresh : Table Entry) :
    Table.keys (table placeholder base fresh) = fresh.keys := by
  rw [table_eq_map, Table.keys, List.map_map]
  rfl

/-- A missing baseline is as good as an empty one. -/
theorem record_eq (base : Option Record) (fresh : Record) :
    record placeholder base fresh =
      ⟨fresh.doc, table placeholder ((base.map Record.members).getD []) fresh.members⟩ := by
  cases base with
  | none =>
      simp [record]
  | some base => rfl

/-! ## Order -/

theorem ordered_table {base fresh : Table Entry} (hasc : fresh.Ascending)
    (hmem : ∀ m ∈ fresh, (withBase placeholder (base.find? m.1) m.2).Ordered) :
    Table.Ascending (table placeholder base fresh) ∧
      ∀ m ∈ table placeholder base fresh, m.2.Ordered := by
  constructor
  · simpa [Table.Ascending] using hasc
  · rw [table_eq_map, List.forall_mem_map]
    exact hmem

theorem ordered_entry (fresh : Entry) :
    fresh.Ordered → ∀ base, (entry placeholder base fresh).Ordered := by
  induction fresh using Entry.inductionOn with
  | type info members ih =>
      intro h base
      obtain ⟨hasc, hmem⟩ := Entry.ordered_type.mp h
      cases base with
      | type _ old =>
          rw [entry, Entry.ordered_type]
          apply ordered_table placeholder hasc
          intro m hm
          cases Table.find? old m.1 with
          | none => exact hmem m hm
          | some e => exact ih m hm (hmem m hm) e
      | _ => exact h
  | _ =>
      intro h base
      cases base <;> exact h

theorem ordered_withBase {fresh : Entry} (h : fresh.Ordered) (base : Option Entry) :
    (withBase placeholder base fresh).Ordered := by
  cases base with
  | none => exact h
  | some old => exact ordered_entry placeholder fresh h old

/-- Merged records are ordered, whatever the baseline is. -/
theorem ordered_record {fresh : Record} (h : fresh.Ordered) (base : Option Record) :
    (record placeholder base fresh).Ordered := by
  rw [record_eq, Record.Ordered, Entry.orderedTable_iff]
  apply ordered_table placeholder h.1
  intro m hm
  exact ordered_withBase placeholder (Entry.orderedTable_iff.mp h.2 m hm) _

/-! ## Merging with the merged entry -/

@[simp] theorem adopt_self (f : Callable) : adopt f f = f := by
  cases f
  simp [adopt]

@[simp] theorem narrow_self (a : Attribute) : narrow placeholder a a = a := by
  cases a
  simp [narrow]

@[simp] theorem adopt_adopt (old f : Callable) : adopt (adopt old f) f = adopt old f := by
  by_cases h : f.overloads.isEmpty <;> cases hdoc : f.doc <;> simp [adopt, h, hdoc]

@[simp] theorem narrow_narrow (old a : Attribute) :
    narrow placeholder (narrow placeholder old a) a = narrow placeholder old a := by
  by_cases h : a.type = placeholder <;> simp [narrow, h]

/-- If each member is merged as given, so is the table. -/
theorem table_congr {base fresh : Table Entry} (merged : String → Entry → Entry)
    (h : ∀ m ∈ fresh, withBase placeholder (base.find? m.1) m.2 = merged m.1 m.2) :
    table placeholder base fresh = fresh.map fun m => (m.1, merged m.1 m.2) := by
  rw [table_eq_map]
  apply List.map_congr_left
  intro m hm
  rw [h m hm]

theorem entry_self (e : Entry) : e.Ordered → entry placeholder e e = e := by
  induction e using Entry.inductionOn with
  | function f | method f =>
      intro _
      rw [entry, adopt_self]
  | property a | data a =>
      intro _
      rw [entry, narrow_self]
  | type info members ih =>
      intro h
      obtain ⟨hasc, hmem⟩ := Entry.ordered_type.mp h
      have htable : table placeholder members members = members := by
        rw [table_congr placeholder (fun _ e => e), List.map_id']
        intro m hm
        simp [Table.find?_of_mem hasc hm, ih m hm (hmem m hm)]
      rw [entry, htable]
  | multiple es | typeRef t | moduleRef m =>
      intro _
      rfl

theorem table_table {base fresh : Table Entry} (hasc : fresh.Ascending)
    (hmem : ∀ m ∈ fresh, ∀ old,
      entry placeholder (withBase placeholder old m.2) m.2 = withBase placeholder old m.2) :
    table placeholder (table placeholder base fresh) fresh = table placeholder base fresh := by
  rw [table_congr placeholder fun name e => withBase placeholder (base.find? name) e,
    ← table_eq_map]
  intro m hm
  simp [find?_table, Table.find?_of_mem hasc hm, hmem m hm]

/-- An entry merged with what it was merged to before stays so. -/
theorem entry_entry (fresh : Entry) : fresh.Ordered → ∀ base,
    entry placeholder (entry placeholder base fresh) fresh = entry placeholder base fresh := by
  induction fresh using Entry.inductionOn with
  | function f =>
      intro h base
      cases base with
      | function old => rw [entry, entry, adopt_adopt]
      | _ => exact entry_self placeholder _ h
  | method f =>
      intro h base
      cases base with
      | method old => rw [entry, entry, adopt_adopt]
      | _ => exact entry_self placeholder _ h
  | property a =>
      intro h base
      cases base with
      | property old => rw [entry, entry, narrow_narrow]
      | _ => exact entry_self placeholder _ h
  | data a =>
      intro h base
      cases base with
      | data old => rw [entry, entry, narrow_narrow]
      | _ => exact entry_self placeholder _ h
  | type info members ih =>
      intro h base
      rcases Entry.ordered_type.mp h with ⟨hasc, hmem⟩
      cases base with
      | type _ old =>
          have htable : table placeholder (table placeholder old members) members =
              table placeholder old members := by
            apply table_table placeholder hasc
            intro m hm base
            cases base with
            | none => exact entry_self placeholder m.2 (hmem m hm)
            | some e => exact ih m hm (hmem m hm) e
          rw [entry, entry, htable]
      | _ => exact entry_self placeholder _ h
  | multiple es | typeRef t | moduleRef m =>
      intro _ base
      cases base <;> rfl

theorem entry_withBase {fresh : Entry} (h : fresh.Ordered) (base : Option Entry) :
    entry placeholder (withBase placeholder base fresh) fresh =
      withBase placeholder base fresh := by
  cases base with
  | none => exact entry_self placeholder fresh h
  | some old => exact entry_entry placeholder fresh h old

/-- A record merged with what it was merged to before stays so. -/
theorem record_record {fresh : Record} (h : fresh.Ordered) (base : Option Record) :
    record placeholder (some (record placeholder base fresh)) fresh =
      record placeholder base fresh := by
  have hmem := Entry.orderedTable_iff.mp h.2
  rw [record_eq, record_eq, Option.map_some, Option.getD_some]
  rw [table_table placeholder h.1 fun m hm => entry_withBase placeholder (hmem m hm)]

end Merge
end CompletionDb
