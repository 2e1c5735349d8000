import CompletionDb.Proofs.ArchiveRoundTrip
import CompletionDb.Proofs.MergeStability

/-!
# How deep and how large records are

The payload of a record nests three levels for each type around an entry, and a bounded number of
levels for the entry itself: a callable, the deepest of the others, has seven. So a bound on the
nesting of types, `Within`, is a bound on the levels of the payload.

A merge leaves the nesting of the fresh record as it is and takes texts, overloads and type names
from either side. So the limits of the archive hold for a merged record if the nesting of the fresh
one fits and no size in either is too large.
-/
namespace CompletionDb
open Data

/-- At most so many types or alternatives enclose anything in an entry, itself included. -/
def Entry.Within : ℕ → Entry → Prop
  | _, .function _ | _, .method _ | _, .property _ | _, .data _ | _, .typeRef _
  | _, .moduleRef _ => True
  | 0, .type .. | 0, .multiple _ => False
  | n + 1, .type _ members => ∀ m ∈ members, Entry.Within n m.2
  | n + 1, .multiple es => ∀ e ∈ es, Entry.Within n e

/-- At most so many types or alternatives enclose anything in a record. -/
def Record.Within (n : ℕ) (r : Record) : Prop := ∀ m ∈ r.members, m.2.Within n

/-- No text, list or table in an entry is too large for the archive. -/
def Entry.Sized (e : Entry) : Prop := e.toData.largest < 2 ^ 32

/-- No text, list or table in a record is too large for the archive. -/
def Record.Sized (r : Record) : Prop := r.toData.largest < 2 ^ 32

/-! ## Levels -/

@[simp] theorem TypeName.levels_toData (t : TypeName) : t.toData.levels = 1 := rfl

theorem TypeName.levels_list_toData_le (ts : List TypeName) :
    (Data.list (ts.map TypeName.toData)).levels ≤ 2 := by
  rw [levels_list_le, List.forall_mem_map]
  exact ⟨by decide, fun t _ => t.levels_toData.le⟩

theorem Parameter.levels_toData_le (p : Parameter) : p.toData.levels ≤ 2 := by
  rw [Parameter.toData, levels_object_le]
  simp only [List.forall_mem_append, forall_mem_optionalField, List.forall_mem_singleton]
  exact ⟨by decide, ⟨⟨Nat.zero_le _, fun t _ => t.levels_toData.le⟩, fun _ _ => Nat.zero_le _⟩,
    fun _ _ => Nat.zero_le _⟩

theorem Overload.levels_toData_le (o : Overload) : o.toData.levels ≤ 4 := by
  have hparams : (Data.list (o.params.map Parameter.toData)).levels ≤ 3 := by
    rw [levels_list_le, List.forall_mem_map]
    exact ⟨by decide, fun p _ => p.levels_toData_le⟩
  rw [Overload.toData, levels_object_le]
  simp only [List.forall_mem_cons]
  exact ⟨by decide, hparams, by rw [TypeName.levels_toData]; decide, List.forall_mem_nil _⟩

theorem Callable.levels_toData_le (f : Callable) : f.toData.levels ≤ 6 := by
  have hoverloads : (Data.list (f.overloads.map Overload.toData)).levels ≤ 5 := by
    rw [levels_list_le, List.forall_mem_map]
    exact ⟨by decide, fun o _ => o.levels_toData_le⟩
  rw [Callable.toData, levels_object_le]
  simp only [List.forall_mem_append, forall_mem_optionalField, List.forall_mem_cons]
  exact ⟨by decide, fun _ _ => Nat.zero_le _, hoverloads, Nat.zero_le _, Nat.zero_le _,
    List.forall_mem_nil _⟩

theorem Attribute.levels_toData_le (a : Attribute) : a.toData.levels ≤ 2 := by
  rw [Attribute.toData, levels_object_le]
  simp only [List.forall_mem_append, forall_mem_optionalField, List.forall_mem_singleton]
  exact ⟨by decide, fun _ _ => Nat.zero_le _, a.type.levels_toData.le⟩

theorem TypeInfo.levels_toData_le (info : TypeInfo) {members : Data} {n : ℕ} (hn : 2 ≤ n)
    (hm : members.levels ≤ n) : (info.toData members).levels ≤ n + 1 := by
  have hnames : ∀ ts : List TypeName, (Data.list (ts.map TypeName.toData)).levels ≤ n := fun ts =>
    (TypeName.levels_list_toData_le ts).trans hn
  have hhidden : ∀ f ∈ (if info.hidden then [("is_hidden", Data.bool true)] else []),
      f.2.levels ≤ n := by
    cases info.hidden <;> simp [levels]
  rw [TypeInfo.toData, levels_object_le, Nat.add_sub_cancel]
  simp only [List.forall_mem_append, forall_mem_optionalField, List.forall_mem_cons]
  exact ⟨by omega, ⟨⟨⟨hnames _, hnames _, hm, List.forall_mem_nil _⟩, fun _ _ => Nat.zero_le _⟩,
    hhidden⟩, fun _ _ => Nat.zero_le _⟩

/-- Three levels for each type or list of alternatives around an entry, and seven for the entry. -/
theorem Entry.levels_toData_le (e : Entry) : ∀ n, e.Within n → e.toData.levels ≤ 3 * n + 7 := by
  induction e using Entry.inductionOn with
  | function f | method f =>
      intro n _
      have hvalue := f.levels_toData_le
      rw [Entry.toData, levels_tagged]
      omega
  | property a | data a =>
      intro n _
      have hvalue := a.levels_toData_le
      rw [Entry.toData, levels_tagged]
      omega
  | type info members ih =>
      intro n h
      cases n with
      | zero => cases h
      | succ n =>
          have hmembers : (Data.table (Entry.tableToData members)).levels ≤ 3 * n + 8 := by
            rw [Entry.table_tableToData, levels_object_le, List.forall_mem_map]
            exact ⟨by omega, fun m hm => ih m hm n (h m hm)⟩
          have hvalue := info.levels_toData_le (by omega) hmembers
          rw [Entry.toData, levels_tagged]
          omega
  | multiple es ih =>
      intro n h
      cases n with
      | zero => cases h
      | succ n =>
          have hitems : (Data.list (Entry.listToData es)).levels ≤ 3 * n + 8 := by
            rw [Entry.listToData_eq_map, levels_list_le, List.forall_mem_map]
            exact ⟨by omega, fun e he => ih e he n (h e he)⟩
          have hvalue : (object [("members", .list (Entry.listToData es))]).levels ≤ 3 * n + 9 := by
            rw [levels_object_le, List.forall_mem_singleton]
            exact ⟨by omega, hitems⟩
          rw [Entry.toData, levels_tagged]
          omega
  | typeRef t =>
      intro n _
      have hvalue : (object [("type_name", t.toData)]).levels = 2 := rfl
      rw [Entry.toData, levels_tagged]
      omega
  | moduleRef m =>
      intro n _
      have hvalue : (object [("module_name", .text m)]).levels = 1 := rfl
      rw [Entry.toData, levels_tagged]
      omega

theorem Record.levels_toData_le {n : ℕ} {r : Record} (h : r.Within n) :
    r.toData.levels ≤ 3 * n + 9 := by
  have hmembers : (Data.table (Entry.tableToData r.members)).levels ≤ 3 * n + 8 := by
    rw [Entry.table_tableToData, levels_object_le, List.forall_mem_map]
    exact ⟨by omega, fun m hm => m.2.levels_toData_le n (h m hm)⟩
  rw [Record.toData, levels_object_le]
  simp only [List.forall_mem_append, forall_mem_optionalField, List.forall_mem_singleton]
  exact ⟨by omega, fun _ _ => Nat.zero_le _, hmembers⟩

/-- A table takes one level more than its members. -/
theorem Entry.levels_lt_of_table {members : Table Entry} {room : ℕ}
    (h : (Data.table (Entry.tableToData members)).levels ≤ room) {m : String × Entry}
    (hm : m ∈ members) : m.2.toData.levels < room := by
  rw [Entry.table_tableToData, levels_object_le, List.forall_mem_map] at h
  have hmember : m.2.toData.levels ≤ room - 1 := h.2 m hm
  omega

theorem Entry.levels_lt_type (info : TypeInfo) {members : Table Entry} {m : String × Entry}
    (hm : m ∈ members) : m.2.toData.levels + 2 < (Entry.type info members).toData.levels := by
  rw [Entry.toData, levels_tagged]
  rcases levels_object_le.mp (le_refl (info.toData (.table (Entry.tableToData members))).levels)
    with ⟨hpos, hfields⟩
  have hmember := Entry.levels_lt_of_table
    (hfields ("members", .table (Entry.tableToData members)) (by simp)) hm
  omega

theorem Record.levels_lt {r : Record} {m : String × Entry} (hm : m ∈ r.members) :
    m.2.toData.levels + 1 < r.toData.levels := by
  rcases levels_object_le.mp (le_refl r.toData.levels) with ⟨hpos, hfields⟩
  have hmember := Entry.levels_lt_of_table
    (hfields ("members", .table (Entry.tableToData r.members)) (by simp)) hm
  omega

/-! ## Sizes -/

theorem Data.largest_object_lt {fields : List (String × Data)} {bound : ℕ} (hbound : 0 < bound) :
    (object fields).largest < bound ↔ fields.length < bound ∧
      ∀ f ∈ fields, (Data.text f.1).largest < bound ∧ f.2.largest < bound := by
  have hfields : largestTable (fields.map fun f => (.text f.1, f.2)) < bound ↔
      ∀ f ∈ fields, (Data.text f.1).largest < bound ∧ f.2.largest < bound := by
    induction fields with
    | nil => simp [largestTable, hbound]
    | cons f fields ih =>
        rw [List.map_cons, largestTable, max_lt_iff, max_lt_iff, ih, List.forall_mem_cons]
  rw [object, largest, max_lt_iff, List.length_map, hfields]

/-- Of a structure only the values can be too large. -/
theorem Data.largest_structure_lt (names : List String) {fields : List (String × Data)}
    (hsub : (fields.map Prod.fst).Sublist names)
    (hnames : names.length < 2 ^ 32 ∧ ∀ name ∈ names, (Data.text name).largest < 2 ^ 32) :
    (object fields).largest < 2 ^ 32 ↔ ∀ f ∈ fields, f.2.largest < 2 ^ 32 := by
  have hlength : fields.length < 2 ^ 32 := by
    have hle := hsub.length_le
    rw [List.length_map] at hle
    omega
  rw [largest_object_lt (by decide)]
  constructor
  · exact fun h f hf => (h.2 f hf).2
  · intro h
    refine ⟨hlength, fun f hf => ⟨?_, h f hf⟩⟩
    exact hnames.2 f.1 (hsub.subset (List.mem_map_of_mem hf))

theorem largest_tagged_lt {kind : Kind} {value : Data} :
    (tagged kind value).largest < 2 ^ 32 ↔ value.largest < 2 ^ 32 := by
  have hkind : kind.toData.largest < 2 ^ 32 := by cases kind <;> decide +kernel
  rw [tagged, largest_structure_lt ["kind", "value"] (List.Sublist.refl _) (by decide +kernel)]
  simp only [List.forall_mem_cons, hkind]
  simp

theorem Callable.largest_toData_lt {f : Callable} :
    f.toData.largest < 2 ^ 32 ↔ (∀ doc, f.doc = some doc → (Data.text doc).largest < 2 ^ 32) ∧
      (Data.list (f.overloads.map Overload.toData)).largest < 2 ^ 32 := by
  have hsub := (keys_optionalField "doc" Data.text f.doc).append
    (List.Sublist.refl ["overloads", "builtin", "static"])
  rw [Callable.toData, largest_structure_lt ["doc", "overloads", "builtin", "static"]
    (by rw [List.map_append]; exact hsub) (by decide +kernel)]
  simp only [List.forall_mem_append, forall_mem_optionalField, List.forall_mem_cons]
  simp [Data.largest]

theorem Attribute.largest_toData_lt {a : Attribute} :
    a.toData.largest < 2 ^ 32 ↔ (∀ doc, a.doc = some doc → (Data.text doc).largest < 2 ^ 32) ∧
      a.type.toData.largest < 2 ^ 32 := by
  have hsub := (keys_optionalField "doc" Data.text a.doc).append (List.Sublist.refl ["type"])
  rw [Attribute.toData, largest_structure_lt ["doc", "type"]
    (by rw [List.map_append]; exact hsub) (by decide +kernel)]
  simp only [List.forall_mem_append, forall_mem_optionalField, List.forall_mem_singleton]

theorem TypeInfo.largest_fields_lt {info : TypeInfo} {members : Data} :
    (info.toData members).largest < 2 ^ 32 ↔
      ((Data.list (info.mro.map TypeName.toData)).largest < 2 ^ 32 ∧
        (Data.list (info.bases.map TypeName.toData)).largest < 2 ^ 32 ∧
        ∀ doc, info.doc = some doc → (Data.text doc).largest < 2 ^ 32) ∧
      members.largest < 2 ^ 32 := by
  have hhidden : ((if info.hidden then [("is_hidden", Data.bool true)] else []).map
      Prod.fst).Sublist ["is_hidden"] := by
    cases info.hidden <;> simp
  have hsub := (((List.Sublist.refl ["mro", "bases", "members"]).append
    (keys_optionalField "doc" Data.text info.doc)).append hhidden).append
    (keys_optionalField "builtin" Data.bool info.builtin)
  have hflag : ∀ f ∈ (if info.hidden then [("is_hidden", Data.bool true)] else []),
      f.2.largest < 2 ^ 32 := by
    cases info.hidden <;> simp [Data.largest]
  rw [TypeInfo.toData, largest_structure_lt
    ["mro", "bases", "members", "doc", "is_hidden", "builtin"]
    (by simp only [List.map_append]; exact hsub) (by decide +kernel)]
  simp only [List.forall_mem_append, forall_mem_optionalField, List.forall_mem_cons]
  constructor
  · rintro ⟨⟨⟨⟨hmro, hbases, hmembers, -⟩, hdoc⟩, -⟩, -⟩
    exact ⟨⟨hmro, hbases, hdoc⟩, hmembers⟩
  · rintro ⟨⟨hmro, hbases, hdoc⟩, hmembers⟩
    exact ⟨⟨⟨⟨hmro, hbases, hmembers, List.forall_mem_nil _⟩, hdoc⟩, hflag⟩,
      fun b _ => by simp [Data.largest]⟩

/-- The fields of a type entry and its member table are apart. -/
theorem TypeInfo.largest_toData_lt {info : TypeInfo} {members : Data} :
    (info.toData members).largest < 2 ^ 32 ↔
      (info.toData .null).largest < 2 ^ 32 ∧ members.largest < 2 ^ 32 := by
  have hnull : Data.null.largest < 2 ^ 32 := by simp [Data.largest]
  rw [TypeInfo.largest_fields_lt, TypeInfo.largest_fields_lt, and_iff_left hnull]

theorem Entry.sizedTable_iff {members : Table Entry} :
    (Data.table (Entry.tableToData members)).largest < 2 ^ 32 ↔
      members.length < 2 ^ 32 ∧ ∀ m ∈ members, (Data.text m.1).largest < 2 ^ 32 ∧ m.2.Sized := by
  rw [Entry.table_tableToData, largest_object_lt (by decide), List.length_map, List.forall_mem_map]
  rfl

theorem Record.sized_iff {r : Record} :
    r.Sized ↔ (∀ doc, r.doc = some doc → (Data.text doc).largest < 2 ^ 32) ∧
      (Data.table (Entry.tableToData r.members)).largest < 2 ^ 32 := by
  have hsub := (keys_optionalField "doc" Data.text r.doc).append (List.Sublist.refl ["members"])
  rw [Record.Sized, Record.toData, largest_structure_lt ["doc", "members"]
    (by rw [List.map_append]; exact hsub) (by decide +kernel)]
  simp only [List.forall_mem_append, forall_mem_optionalField, List.forall_mem_singleton]

/-! ## Merged records -/

namespace Merge
variable (placeholder : TypeName)

theorem sized_adopt {old f : Callable} (hold : old.toData.largest < 2 ^ 32)
    (hf : f.toData.largest < 2 ^ 32) : (adopt old f).toData.largest < 2 ^ 32 := by
  rw [Callable.largest_toData_lt] at hold hf ⊢
  constructor
  · intro doc hdoc
    rcases Option.or_eq_some_iff.mp hdoc with hfresh | ⟨-, hbase⟩
    · exact hf.1 doc hfresh
    · exact hold.1 doc hbase
  · unfold adopt
    dsimp only
    split_ifs
    · exact hold.2
    · exact hf.2

theorem sized_narrow {old a : Attribute} (hold : old.toData.largest < 2 ^ 32)
    (ha : a.toData.largest < 2 ^ 32) : (narrow placeholder old a).toData.largest < 2 ^ 32 := by
  rw [Attribute.largest_toData_lt] at hold ha ⊢
  refine ⟨ha.1, ?_⟩
  unfold narrow
  dsimp only
  split_ifs
  · exact hold.2
  · exact ha.2

theorem sized_table {base fresh : Table Entry}
    (hfresh : (Data.table (Entry.tableToData fresh)).largest < 2 ^ 32)
    (hmem : ∀ m ∈ fresh, (withBase placeholder (base.find? m.1) m.2).Sized) :
    (Data.table (Entry.tableToData (table placeholder base fresh))).largest < 2 ^ 32 := by
  rw [Entry.sizedTable_iff] at hfresh ⊢
  rw [table_eq_map, List.length_map, List.forall_mem_map]
  exact ⟨hfresh.1, fun m hm => ⟨(hfresh.2 m hm).1, hmem m hm⟩⟩

theorem sized_entry (fresh : Entry) : fresh.Sized → ∀ base : Entry, base.Sized →
    (entry placeholder base fresh).Sized := by
  induction fresh using Entry.inductionOn with
  | function f =>
      intro hf base hbase
      cases base with
      | function old =>
          rw [Entry.Sized, Entry.toData, largest_tagged_lt] at hf hbase
          rw [entry, Entry.Sized, Entry.toData, largest_tagged_lt]
          exact sized_adopt hbase hf
      | _ => exact hf
  | method f =>
      intro hf base hbase
      cases base with
      | method old =>
          rw [Entry.Sized, Entry.toData, largest_tagged_lt] at hf hbase
          rw [entry, Entry.Sized, Entry.toData, largest_tagged_lt]
          exact sized_adopt hbase hf
      | _ => exact hf
  | property a =>
      intro ha base hbase
      cases base with
      | property old =>
          rw [Entry.Sized, Entry.toData, largest_tagged_lt] at ha hbase
          rw [entry, Entry.Sized, Entry.toData, largest_tagged_lt]
          exact sized_narrow placeholder hbase ha
      | _ => exact ha
  | data a =>
      intro ha base hbase
      cases base with
      | data old =>
          rw [Entry.Sized, Entry.toData, largest_tagged_lt] at ha hbase
          rw [entry, Entry.Sized, Entry.toData, largest_tagged_lt]
          exact sized_narrow placeholder hbase ha
      | _ => exact ha
  | type info members ih =>
      intro hfresh base hbase
      cases base with
      | type other old =>
          rw [Entry.Sized, Entry.toData, largest_tagged_lt, TypeInfo.largest_toData_lt]
            at hfresh hbase
          rw [entry, Entry.Sized, Entry.toData, largest_tagged_lt, TypeInfo.largest_toData_lt]
          refine ⟨hfresh.1, sized_table placeholder hfresh.2 fun m hm => ?_⟩
          have hm' := ((Entry.sizedTable_iff.mp hfresh.2).2 m hm).2
          cases hfind : Table.find? old m.1 with
          | none => exact hm'
          | some e =>
              have he := (Entry.sizedTable_iff.mp hbase.2).2 _ (Table.mem_of_find? hfind)
              exact ih m hm hm' e he.2
      | _ => exact hfresh
  | multiple es | typeRef t | moduleRef m =>
      intro hfresh base _
      cases base <;> exact hfresh

theorem sized_record {fresh : Record} (hfresh : fresh.Sized) {base : Option Record}
    (hbase : ∀ r ∈ base, r.Sized) : (record placeholder base fresh).Sized := by
  cases base with
  | none => exact hfresh
  | some base =>
      have hold := hbase base rfl
      rw [Record.sized_iff] at hfresh hold ⊢
      refine ⟨hfresh.1, sized_table placeholder hfresh.2 fun m hm => ?_⟩
      have hm' := ((Entry.sizedTable_iff.mp hfresh.2).2 m hm).2
      cases hfind : Table.find? base.members m.1 with
      | none => exact hm'
      | some e =>
          have he := (Entry.sizedTable_iff.mp hold.2).2 _ (Table.mem_of_find? hfind)
          exact sized_entry placeholder m.2 hm' e he.2

theorem within_entry {n : ℕ} {fresh : Entry} (h : fresh.Within n) (base : Entry) :
    (entry placeholder base fresh).Within n := by
  induction n generalizing fresh base with
  | zero => cases fresh <;> cases base <;> trivial
  | succ n ih =>
      cases fresh with
      | type info members =>
          cases base with
          | type other old =>
              rw [entry, table_eq_map, Entry.Within, List.forall_mem_map]
              intro m hm
              cases Table.find? old m.1 with
              | none => exact h m hm
              | some e => exact ih (h m hm) e
          | _ => exact h
      | _ => cases base <;> trivial

theorem within_record {n : ℕ} {fresh : Record} (h : fresh.Within n) (base : Option Record) :
    (record placeholder base fresh).Within n := by
  rw [record_eq, Record.Within, table_eq_map, List.forall_mem_map]
  intro m hm
  cases Table.find? ((base.map Record.members).getD []) m.1 with
  | none => exact h m hm
  | some e => exact within_entry placeholder (h m hm) e

/-- A merged record is within the limits of the archive if the fresh one is and no size in the
baseline is too large. The nesting of the baseline does not count. -/
theorem fits_record {n : ℕ} {fresh : Record} (ho : fresh.Ordered) (hw : fresh.Within n)
    (hs : fresh.Sized) {base : Option Record} (hbase : ∀ r ∈ base, r.Sized) :
    (record placeholder base fresh).Fits (3 * n + 9) where
  ordered := ordered_record placeholder ho base
  sized := sized_record placeholder hs hbase
  nested := Record.levels_toData_le (within_record placeholder hw base)

end Merge
end CompletionDb
