import CompletionDb.Proofs.FieldOrder
import CompletionDb.Proofs.ReaderLimit

/-!
# Rearranged records

The data of a record can stand in a file in other ways than it is written. The fields of a structure
may come in any order, with unknown fields between them; so may the kind and the value of an entry;
and member tables may be in any order, but every key in them is a member. `Rearranged` says this at
every depth, along the shapes that the parts of a record have.

Decoding gives the same record for all of them. Each structure is read through its fields, which
stand in the same slots after a rearrangement, with values that are rearrangements in their turn. An
entry whose value comes first has its value held in memory, so everything is shown for values that
are read in any way. An unknown field may be an extension, which takes a level where the structure
itself might have none below it; the reader needs room for one level more than the record has.
-/
namespace CompletionDb
open Data

/-! ## Shapes -/

/-- The structures that records are made of. -/
inductive Struct
  | record
  | type
  | callable
  | overload
  | parameter
  | datum
  | alternatives
  | typeTarget
  | moduleTarget

/-- What stands in a place, as far as it can be rearranged. A plain value cannot. -/
inductive Shape
  | plain
  | struct (s : Struct)
  | list (item : Shape)
  | entry
  | members

namespace Struct

def fields : Struct → List (String × Shape)
  | record => [("doc", .plain), ("members", .members)]
  | type => [("mro", .plain), ("bases", .plain), ("members", .members), ("doc", .plain),
      ("is_hidden", .plain), ("builtin", .plain)]
  | callable => [("doc", .plain), ("overloads", .list (.struct overload)), ("builtin", .plain),
      ("static", .plain)]
  | overload => [("params", .list (.struct parameter)), ("ret_type", .plain)]
  | parameter => [("name", .plain), ("type", .plain), ("default", .plain), ("arg_format", .plain)]
  | datum => [("doc", .plain), ("type", .plain)]
  | alternatives => [("members", .list .entry)]
  | typeTarget => [("type_name", .plain)]
  | moduleTarget => [("module_name", .plain)]

def names (s : Struct) : List String := s.fields.map Prod.fst

/-- The shape of a field. -/
def shape (s : Struct) (name : String) : Shape := (s.fields.lookup name).getD .plain

/-- The shape of the field in a slot. -/
def shapeAt (s : Struct) (i : ℕ) : Shape := (s.fields[i]?.map Prod.snd).getD .plain

theorem lookup_eq_bind_idxOf? {α : Type} (name : String) (fields : List (String × α)) :
    fields.lookup name =
      ((fields.map Prod.fst).idxOf? name).bind fun i => fields[i]?.map Prod.snd := by
  induction fields with
  | nil => rfl
  | cons f fields ih =>
      rw [Table.lookup_cons, List.map_cons, List.idxOf?_cons]
      by_cases hname : name = f.1
      · simp [hname]
      · simp [hname, Ne.symm hname, ih, Option.bind_map]

theorem shape_of_idxOf? {s : Struct} {name : String} {i : ℕ} (h : s.names.idxOf? name = some i) :
    s.shape name = s.shapeAt i := by
  rw [shape, lookup_eq_bind_idxOf?, ← names, h, Option.bind_some, shapeAt]

theorem shape_of_not_mem {s : Struct} {name : String} (h : name ∉ s.names) :
    s.shape name = .plain := by
  rw [shape, lookup_eq_bind_idxOf?, ← names, List.idxOf?_eq_none_iff.mpr h, Option.bind_none,
    Option.getD_none]

theorem shapeAt_of_plain {s : Struct} (h : ∀ f ∈ s.fields, f.2 = .plain) (i : ℕ) :
    s.shapeAt i = .plain := by
  rw [shapeAt]
  cases hi : s.fields[i]? with
  | none => rfl
  | some f => exact h f (List.mem_of_getElem? hi)

end Struct

/-- The structure that the value of an entry has. -/
def Kind.struct : Kind → Struct
  | .function | .method => .callable
  | .property | .data => .datum
  | .type => .type
  | .multiple => .alternatives
  | .typeRef => .typeTarget
  | .moduleRef => .moduleTarget

/-- The second document is the first with the entries of structures, entries and member tables in
any order, and with unknown fields in structures and entries. -/
inductive Rearranged : Shape → Data → Data → Prop
  | plain (d : Data) : Rearranged .plain d d
  | list {item : Shape} {parts : List (Data × Data)} :
      (∀ p ∈ parts, Rearranged item p.1 p.2) →
      Rearranged (.list item) (.list (parts.map Prod.fst)) (.list (parts.map Prod.snd))
  | members {parts : List (String × Data × Data)} {entries : List (String × Data)} :
      (∀ p ∈ parts, Rearranged .entry p.2.1 p.2.2) →
      entries.Perm (parts.map fun p => (p.1, p.2.2)) →
      Rearranged .members (.object (parts.map fun p => (p.1, p.2.1))) (.object entries)
  | struct {s : Struct} {parts : List (String × Data × Data)}
      {extra entries : List (String × Data)} :
      (∀ p ∈ parts, Rearranged (s.shape p.1) p.2.1 p.2.2) → Unknown s.names extra →
      entries.Perm ((parts.map fun p => (p.1, p.2.2)) ++ extra) →
      Rearranged (.struct s) (.object (parts.map fun p => (p.1, p.2.1))) (.object entries)
  | entry {kind : Kind} {value value' : Data} {extra entries : List (String × Data)} :
      Rearranged (.struct kind.struct) value value' → Unknown entryFields extra →
      entries.Perm ([("kind", kind.toData), ("value", value')] ++ extra) →
      Rearranged .entry (tagged kind value) (.object entries)

/-! ## Measures -/

mutual
/-- What only a text format has is not in the items of MessagePack. -/
theorem Data.isSound_of_isNative : (d : Data) → d.isNative → d.isSound
  | .null, _ | .bool _, _ | .unsigned .., _ | .signed .., _ | .float _, _ | .text _, _ | .bytes _, _
  | .extension .., _ => rfl
  | .number _, h | .unpaired, h => by simp [isNative] at h
  | .list items, h => by
      rw [isNative] at h
      rw [isSound]
      exact isSoundList_of_isNativeList items h
  | .table entries, h => by
      rw [isNative] at h
      rw [isSound]
      exact isSoundTable_of_isNativeTable entries h

theorem Data.isSoundList_of_isNativeList : (ds : List Data) → isNativeList ds → isSoundList ds
  | [], _ => rfl
  | d :: ds, h => by
      rw [isNativeList, Bool.and_eq_true] at h
      rw [isSoundList, Bool.and_eq_true]
      exact ⟨isSound_of_isNative d h.1, isSoundList_of_isNativeList ds h.2⟩

theorem Data.isSoundTable_of_isNativeTable :
    (es : List (Data × Data)) → isNativeTable es → isSoundTable es
  | [], _ => rfl
  | (k, v) :: es, h => by
      rw [isNativeTable, Bool.and_eq_true, Bool.and_eq_true] at h
      rw [isSoundTable, Bool.and_eq_true, Bool.and_eq_true]
      exact ⟨⟨isSound_of_isNative k h.1.1, isSound_of_isNative v h.1.2⟩,
        isSoundTable_of_isNativeTable es h.2⟩
end

namespace Rearranged
variable {c d : Data} {shape : Shape}

theorem levels_le (h : Rearranged shape c d) {room : ℕ} (hc : c.levels ≤ room) :
    d.levels ≤ room + 1 := by
  induction h generalizing room with
  | plain d => exact hc.trans (Nat.le_succ room)
  | list _ ih =>
      simp only [levels_list_le, List.forall_mem_map] at hc ⊢
      refine ⟨Nat.succ_pos room, fun p hp => ?_⟩
      have hp' := ih p hp (hc.2 p hp)
      omega
  | members _ hperm ih =>
      simp only [levels_object_le, hperm.mem_iff, List.forall_mem_map] at hc ⊢
      refine ⟨Nat.succ_pos room, fun p hp => ?_⟩
      have hp' := ih p hp (hc.2 p hp)
      omega
  | struct _ hextra hperm ih =>
      simp only [levels_object_le, hperm.mem_iff, List.forall_mem_append, List.forall_mem_map]
        at hc ⊢
      refine ⟨Nat.succ_pos room, fun p hp => ?_, fun f hf => ?_⟩
      · have hp' := ih p hp (hc.2 p hp)
        omega
      · have hf' := levels_of_isScalar (hextra f hf).2
        omega
  | entry _ hextra hperm ih =>
      rw [levels_tagged] at hc
      simp only [levels_object_le, hperm.mem_iff, List.forall_mem_append, List.forall_mem_cons]
      refine ⟨Nat.succ_pos room, ⟨Nat.zero_le _, ?_, List.forall_mem_nil _⟩, fun f hf => ?_⟩
      · have hvalue := ih (Nat.le_sub_one_of_lt hc)
        omega
      · have hf' := levels_of_isScalar (hextra f hf).2
        omega

theorem isNative (h : Rearranged shape c d) (hc : c.isNative) : d.isNative := by
  induction h with
  | plain d => exact hc
  | list _ ih =>
      simp only [isNative_list, List.forall_mem_map] at hc ⊢
      exact fun p hp => ih p hp (hc p hp)
  | members _ hperm ih =>
      simp only [isNative_object, hperm.mem_iff, List.forall_mem_map] at hc ⊢
      exact fun p hp => ih p hp (hc p hp)
  | struct _ hextra hperm ih =>
      simp only [isNative_object, hperm.mem_iff, List.forall_mem_append, List.forall_mem_map]
        at hc ⊢
      exact ⟨fun p hp => ih p hp (hc p hp), fun f hf => isNative_of_isScalar (hextra f hf).2⟩
  | entry _ hextra hperm ih =>
      simp only [tagged, isNative_object, hperm.mem_iff, List.forall_mem_append,
        List.forall_mem_cons] at hc ⊢
      exact ⟨⟨hc.1, ih hc.2.1, List.forall_mem_nil _⟩,
        fun f hf => isNative_of_isScalar (hextra f hf).2⟩

end Rearranged

/-! ## Parts of a rearrangement -/

theorem Data.object_injective : Function.Injective object := by
  intro fields fields' h
  refine List.map_injective_iff.mpr ?_ (Data.table.inj h)
  intro f g hfg
  rw [Prod.mk.injEq, Data.text.injEq] at hfg
  exact Prod.ext hfg.1 hfg.2

theorem tagged_inj {kind kind' : Kind} {value value' : Data}
    (h : tagged kind value = tagged kind' value') : kind = kind' ∧ value = value' := by
  have hfields := object_injective h
  simp only [List.cons.injEq, Prod.mk.injEq, true_and, and_true] at hfields
  refine ⟨?_, hfields.2⟩
  apply Option.some.inj
  rw [← Kind.ofData?_toData .pack 0 kind, hfields.1, Kind.ofData?_toData]

namespace Rearranged
variable {c d : Data} {shape : Shape}

theorem eq_of_plain (h : Rearranged .plain c d) : d = c := by
  cases h
  rfl

theorem eq_of_plain_slot {x y : Option Data} (h : Option.Rel (Rearranged .plain) x y) : y = x := by
  cases h with
  | none => rfl
  | some hd => rw [eq_of_plain hd]

theorem exists_of_slot {y : Option Data} (h : Option.Rel (Rearranged shape) (some c) y) :
    ∃ d, y = some d ∧ Rearranged shape c d := by
  cases h with
  | some hd => exact ⟨_, rfl, hd⟩

/-- The fields of a structure stand in the same slots after it is rearranged. -/
theorem exists_fields? {s : Struct} (h : Rearranged (.struct s) c d) {how : Reading} {room : ℕ}
    (hroom : 1 < room) {names : List String} {slots : List (Option Data)}
    (hread : c.fields? how names room = some slots) (hnames : s.names = names) :
    ∃ slots', d.fields? how names room = some slots' ∧
      Alike (fun i => Rearranged (s.shapeAt i)) slots slots' := by
  subst hnames
  cases h with
  | @struct s parts extra entries hparts hextra hperm =>
      have hne : room ≠ 0 := by omega
      rw [fields?_extended hroom hextra hperm]
      rw [object, Data.fields?, if_neg hne, List.map_map] at hread ⊢
      apply fill_alike _ _ _ hread
      · intro p hp i hi
        rw [← Struct.shape_of_idxOf? hi]
        exact hparts p hp
      -- Under a name that is no field the value is plain, so it is skipped as before.
      · intro p hp hname
        have hplain := hparts p hp
        rw [Struct.shape_of_not_mem hname] at hplain
        exact hplain.eq_of_plain
      · exact alike_replicate_none _

/-- What is read from the fields of a structure whose fields are all plain is read from its
rearrangements too. -/
theorem bind_fields? {α : Type} {s : Struct} (h : Rearranged (.struct s) c d)
    (hplain : ∀ f ∈ s.fields, f.2 = .plain) {how : Reading} {room : ℕ} (hroom : 1 < room)
    {names : List String} {read : List (Option Data) → Option α} {a : α}
    (hread : (c.fields? how names room).bind read = some a) (hnames : s.names = names) :
    (d.fields? how names room).bind read = some a := by
  obtain ⟨slots, hslots, hread⟩ := Option.bind_eq_some_iff.mp hread
  obtain ⟨slots', hslots', halike⟩ := h.exists_fields? hroom hslots hnames
  have hsame : slots' = slots := by
    apply List.ext_getElem?
    intro i
    have hi : Option.Rel (Option.Rel (Rearranged (s.shapeAt i))) slots[i]? slots'[i]? := halike i
    rw [Struct.shapeAt_of_plain hplain] at hi
    generalize slots[i]? = x, slots'[i]? = y at hi ⊢
    cases hi with
    | none => rfl
    | some hslot => rw [eq_of_plain_slot hslot]
  rw [hslots', hsame, Option.bind_some, hread]

theorem exists_list {item : Shape} {items : List Data}
    (h : Rearranged (.list item) (.list items) d) :
    ∃ items', d = .list items' ∧ List.Forall₂ (Rearranged item) items items' := by
  generalize hc : Data.list items = c at h
  cases h with
  | @list item parts hparts =>
      obtain rfl := Data.list.inj hc
      refine ⟨_, rfl, ?_⟩
      rw [List.forall₂_map_left_iff, List.forall₂_map_right_iff, List.forall₂_same]
      exact hparts

theorem exists_members {fields : List (String × Data)}
    (h : Rearranged .members (.object fields) d) :
    ∃ fields' entries, d = .object entries ∧ entries.Perm fields' ∧
      List.Forall₂ (fun f f' => f'.1 = f.1 ∧ Rearranged .entry f.2 f'.2) fields fields' := by
  generalize hc : object fields = c at h
  cases h with
  | @members parts entries hparts hperm =>
      obtain rfl := object_injective hc
      refine ⟨_, entries, rfl, hperm, ?_⟩
      rw [List.forall₂_map_left_iff, List.forall₂_map_right_iff, List.forall₂_same]
      exact fun p hp => ⟨rfl, hparts p hp⟩

theorem exists_entry {kind : Kind} {value : Data} (h : Rearranged .entry (tagged kind value) d) :
    ∃ value' extra entries, d = .object entries ∧ Rearranged (.struct kind.struct) value value' ∧
      Unknown entryFields extra ∧
      entries.Perm ([("kind", kind.toData), ("value", value')] ++ extra) := by
  generalize hc : tagged kind value = c at h
  cases h with
  | @entry kind' value₀ value' extra entries hvalue hextra hperm =>
      obtain ⟨rfl, rfl⟩ := tagged_inj hc
      exact ⟨value', extra, entries, rfl, hvalue, hextra, hperm⟩

end Rearranged

/-! ## Reading -/

section
variable {how : Reading} {room : ℕ} {d : Data}

theorem Rearranged.listOf?_eq {α : Type} {item : Shape} {print : α → Data} {as : List α}
    (h : Rearranged (.list item) (.list (as.map print)) d) (hroom : 0 < room)
    {read : Data → Option α}
    (hread : ∀ a ∈ as, ∀ d, Rearranged item (print a) d → read d = some a) :
    listOf? how room read d = some as := by
  obtain ⟨items, rfl, hitems⟩ := h.exists_list
  rw [List.forall₂_map_left_iff] at hitems
  apply listOf?_of_forall₂ hroom
  exact ((List.forall₂_and_left _ _).mpr ⟨fun a ha => ha, hitems⟩).imp
    fun a d had => hread a had.1 d had.2

theorem Rearranged.tableOf?_eq {members : Table Entry}
    (h : Rearranged .members (.table (Entry.tableToData members)) d) (hroom : 0 < room)
    (hmembers : members.Ascending) {child : Data → Option Entry}
    (hchild : ∀ m ∈ members, ∀ d, Rearranged .entry m.2.toData d → child d = some m.2) :
    tableOf? room child d = some members := by
  rw [Entry.table_tableToData] at h
  obtain ⟨fields, entries, rfl, hperm, hfields⟩ := h.exists_members
  rw [List.forall₂_map_left_iff] at hfields
  apply tableOf?_perm hroom hmembers hperm
  exact ((List.forall₂_and_left _ _).mpr ⟨fun m hm => hm, hfields⟩).imp
    fun m f hmf => ⟨hmf.2.1, hchild m hmf.1 f.2 hmf.2.2⟩

theorem Parameter.ofData?_rearranged {p : Parameter}
    (h : Rearranged (.struct .parameter) p.toData d) (hl : p.toData.levels < room) :
    Parameter.ofData? how room d = some p := by
  obtain ⟨hroom, -⟩ := levels_object_le.mp (Nat.le_sub_one_of_lt hl)
  exact h.bind_fields? (by simp [Struct.fields]) (by omega) (Parameter.ofData?_toData hl.le) rfl

theorem Attribute.ofData?_rearranged {a : Attribute}
    (h : Rearranged (.struct .datum) a.toData d) (hl : a.toData.levels < room) :
    Attribute.ofData? how room d = some a := by
  obtain ⟨hroom, -⟩ := levels_object_le.mp (Nat.le_sub_one_of_lt hl)
  exact h.bind_fields? (by simp [Struct.fields]) (by omega) (Attribute.ofData?_toData hl.le) rfl

theorem typeTarget?_rearranged {t : TypeName}
    (h : Rearranged (.struct .typeTarget) (.object [("type_name", t.toData)]) d)
    (hl : (object [("type_name", t.toData)]).levels < room) : typeTarget? how room d = some t := by
  obtain ⟨hroom, -⟩ := levels_object_le.mp (Nat.le_sub_one_of_lt hl)
  exact h.bind_fields? (by simp [Struct.fields]) (by omega) (typeTarget?_object (by omega) t) rfl

theorem moduleTarget?_rearranged {m : String}
    (h : Rearranged (.struct .moduleTarget) (.object [("module_name", .text m)]) d)
    (hl : (object [("module_name", .text m)]).levels < room) :
    moduleTarget? how room d = some m := by
  obtain ⟨hroom, -⟩ := levels_object_le.mp (Nat.le_sub_one_of_lt hl)
  exact h.bind_fields? (by simp [Struct.fields]) (by omega) (moduleTarget?_object (by omega) m) rfl

theorem Overload.ofData?_rearranged {o : Overload}
    (h : Rearranged (.struct .overload) o.toData d) (hl : o.toData.levels < room) :
    Overload.ofData? how room d = some o := by
  obtain ⟨hroom, hfields⟩ := levels_object_le.mp (Nat.le_sub_one_of_lt hl)
  obtain ⟨hroom', hitems⟩ := levels_list_le.mp
    (hfields ("params", .list (o.params.map Parameter.toData)) (by simp))
  have hread := Overload.fields?_toData how (show 0 < room by omega) o
  obtain ⟨slots, hread', halike⟩ := h.exists_fields? (by omega) hread rfl
  simp only [alike_cons_left, alike_nil_left] at halike
  obtain ⟨_, _, hslot, ⟨_, _, hreturns, rfl, rfl⟩, rfl⟩ := halike
  obtain ⟨params, rfl, hparams⟩ := Rearranged.exists_of_slot hslot
  rw [Rearranged.eq_of_plain_slot hreturns] at hread'
  have hlist : listOf? how (room - 1) (Parameter.ofData? how (room - 2)) params =
      some o.params := by
    apply hparams.listOf?_eq (by omega)
    intro p hp d hd
    have hp' := hitems _ (List.mem_map_of_mem hp)
    exact Parameter.ofData?_rearranged hd (by omega)
  have hreturns : TypeName.ofData? (room - 1) o.returns.toData = some o.returns :=
    TypeName.ofData?_toData (by omega) o.returns
  simp [Overload.ofData?, hread', hlist, hreturns]

theorem Callable.ofData?_rearranged {f : Callable}
    (h : Rearranged (.struct .callable) f.toData d) (hl : f.toData.levels < room) :
    Callable.ofData? how room d = some f := by
  obtain ⟨hroom, hfields⟩ := levels_object_le.mp (Nat.le_sub_one_of_lt hl)
  obtain ⟨hroom', hitems⟩ := levels_list_le.mp
    (hfields ("overloads", .list (f.overloads.map Overload.toData)) (by simp))
  have hread := Callable.fields?_toData how (show 0 < room by omega) f
  obtain ⟨slots, hread', halike⟩ := h.exists_fields? (by omega) hread rfl
  simp only [alike_cons_left, alike_nil_left] at halike
  obtain ⟨_, _, hdoc, ⟨_, _, hslot, ⟨_, _, hbuiltin, ⟨_, _, hstatic, rfl, rfl⟩, rfl⟩, rfl⟩,
    rfl⟩ := halike
  obtain ⟨overloads, rfl, hoverloads⟩ := Rearranged.exists_of_slot hslot
  rw [Rearranged.eq_of_plain_slot hdoc, Rearranged.eq_of_plain_slot hbuiltin,
    Rearranged.eq_of_plain_slot hstatic] at hread'
  have hlist : listOf? how (room - 1) (Overload.ofData? how (room - 2)) overloads =
      some f.overloads := by
    apply hoverloads.listOf?_eq (by omega)
    intro o ho d hd
    have ho' := hitems _ (List.mem_map_of_mem ho)
    exact Overload.ofData?_rearranged hd (by omega)
  simp [Callable.ofData?, hread', hlist, bool?]

theorem alternatives?_rearranged {es : List Entry} {child : Data → Option Entry}
    (h : Rearranged (.struct .alternatives) (.object [("members", .list (Entry.listToData es))]) d)
    (hroom : 1 < room)
    (hchild : ∀ e ∈ es, ∀ d, Rearranged .entry e.toData d → child d = some e) :
    alternatives? how child room d = some es := by
  have hread := fields?_singleton how (show 0 < room by omega) "members"
    (.list (Entry.listToData es))
  obtain ⟨slots, hread', halike⟩ := h.exists_fields? hroom hread rfl
  simp only [alike_cons_left, alike_nil_left] at halike
  obtain ⟨_, _, hslot, rfl, rfl⟩ := halike
  obtain ⟨members, rfl, hmembers⟩ := Rearranged.exists_of_slot hslot
  rw [Entry.listToData_eq_map] at hmembers
  have hlist : listOf? how (room - 1) child members = some es :=
    hmembers.listOf?_eq (by omega) hchild
  simp [alternatives?, hread', hlist]

/-- A type entry's own fields, given that its members are read. -/
theorem TypeInfo.ofData?_rearranged {info : TypeInfo} {members : Table Entry}
    {child : Data → Option Entry}
    (h : Rearranged (.struct .type) (info.toData (.table (Entry.tableToData members))) d)
    (hl : (info.toData (.table (Entry.tableToData members))).levels < room)
    (hmembers : members.Ascending)
    (hchild : ∀ m ∈ members, ∀ d, Rearranged .entry m.2.toData d → child d = some m.2) :
    TypeInfo.ofData? how child room d = some (info, members) := by
  obtain ⟨hroom, hfields⟩ := levels_object_le.mp hl.le
  obtain ⟨hroom', -⟩ := levels_object_le.mp (Nat.le_sub_one_of_lt hl)
  have hread := TypeInfo.fields?_toData how hroom info (.table (Entry.tableToData members))
  obtain ⟨slots, hread', halike⟩ := h.exists_fields? (by omega) hread rfl
  simp only [alike_cons_left, alike_nil_left] at halike
  obtain ⟨_, _, hmro, ⟨_, _, hbases, ⟨_, _, hslot, ⟨_, _, hdoc, ⟨_, _, hhidden,
    ⟨_, _, hbuiltin, rfl, rfl⟩, rfl⟩, rfl⟩, rfl⟩, rfl⟩, rfl⟩ := halike
  obtain ⟨table, rfl, htable⟩ := Rearranged.exists_of_slot hslot
  rw [Rearranged.eq_of_plain_slot hmro, Rearranged.eq_of_plain_slot hbases,
    Rearranged.eq_of_plain_slot hdoc, Rearranged.eq_of_plain_slot hhidden,
    Rearranged.eq_of_plain_slot hbuiltin] at hread'
  have hread'' : tableOf? (room - 1) child table = some members :=
    htable.tableOf?_eq (by omega) hmembers hchild
  exact TypeInfo.ofData?_of_fields hread' (hfields ("mro", _) (by simp))
    (hfields ("bases", _) (by simp)) hread''

/-! ## Entries and records -/

/-- The kind and the value of an entry are found. If the value stands first, it is held. -/
theorem entryParts?_rearranged (how : Reading) {kind : Kind} {value : Data}
    {extra entries : List (String × Data)} (hextra : Unknown entryFields extra)
    (hperm : entries.Perm ([("kind", kind.toData), ("value", value)] ++ extra)) (hroom : 1 < room)
    (hkeep : value.keepable (room - 1)) :
    ∃ how', entryParts? how room (.object entries) = some (kind, value, how') := by
  have hread : (object entries).fields? how entryFields room =
      some [some kind.toData, some value] := by
    rw [fields?_extended hroom hextra hperm, fields?_sublist (by omega) (by decide)]
    · simp [entryFields, Table.lookup_cons]
    · exact List.Sublist.refl _
  simp only [entryParts?, hread, Option.bind_eq_bind, Option.bind_some]
  simp only [object, Kind.ofData?_toData, Option.bind_some, hkeep, if_true]
  cases valueFirst how (entries.map fun f => (.text f.1, f.2)) with
  | false => exact ⟨how, rfl⟩
  | true => exact ⟨.held, rfl⟩

theorem Entry.ofData?_of_parts {how' : Reading} {kind : Kind} {value : Data}
    (h : entryParts? how room d = some (kind, value, how')) :
    Entry.ofData? how room d =
      Entry.ofValue? how' (Entry.childOf? how' room) (room - 1) value kind := by
  match room with
  | 0 | 1 | 2 | room + 3 => simp [Entry.ofData?, h, Entry.childOf?]

theorem Entry.isNative_toData (e : Entry) : e.toData.isNative :=
  e.tree_toData.isNative fun _ hd => hd.isNative

/-- An entry is read if its value is, with one level less and in whichever way it is read. -/
theorem Entry.ofData?_of_value {e : Entry} {kind : Kind} {value : Data}
    (he : e.toData = tagged kind value) (h : Rearranged .entry e.toData d)
    (hl : e.toData.levels < room)
    (hvalue : value.levels < room - 1 →
      ∀ how' value', Rearranged (.struct kind.struct) value value' →
        Entry.ofValue? how' (Entry.childOf? how' room) (room - 1) value' kind = some e) :
    Entry.ofData? how room d = some e := by
  have hn := e.isNative_toData
  rw [he] at h hl hn
  rw [levels_tagged] at hl
  obtain ⟨value', extra, entries, rfl, hvalue', hextra, hperm⟩ := h.exists_entry
  -- The value may be held, so all of it has to fit, with what the unknown fields in it take.
  have hlevels : value'.levels ≤ room - 1 := by
    have hle := hvalue'.levels_le (show value.levels ≤ room - 2 by omega)
    omega
  have hnative : value'.isNative :=
    hvalue'.isNative (isNative_object.mp hn ("value", value) (by simp))
  have hkeep : value'.keepable (room - 1) := by
    simp [keepable, hlevels, isSound_of_isNative value' hnative]
  obtain ⟨how', hparts⟩ := entryParts?_rearranged how hextra hperm (by omega) hkeep
  rw [Entry.ofData?_of_parts hparts]
  exact hvalue (by omega) how' value' hvalue'

@[simp] theorem Entry.orderedList_iff {es : List Entry} :
    Entry.OrderedList es ↔ ∀ e ∈ es, e.Ordered := by
  induction es with
  | nil => simp [Entry.OrderedList]
  | cons e es ih => rw [Entry.OrderedList, ih, List.forall_mem_cons]

/-- The induction goes over every room and every way of reading, since the way changes at a value
that stands before its kind. -/
theorem Entry.ofData?_rearranged (e : Entry) : ∀ (how : Reading) (room : ℕ) (d : Data),
    e.Ordered → e.toData.levels < room → Rearranged .entry e.toData d →
      Entry.ofData? how room d = some e := by
  induction e using Entry.inductionOn with
  | function f | method f =>
      intro how room d _ hl h
      apply Entry.ofData?_of_value rfl h hl
      intro hl' how' value hvalue
      rw [Entry.ofValue?, Callable.ofData?_rearranged hvalue hl', Option.map_some]
  | property a | data a =>
      intro how room d _ hl h
      apply Entry.ofData?_of_value rfl h hl
      intro hl' how' value hvalue
      rw [Entry.ofValue?, Attribute.ofData?_rearranged hvalue hl', Option.map_some]
  | type info members ih =>
      intro how room d ho hl h
      obtain ⟨hascending, hmembers⟩ := Entry.ordered_type.mp ho
      apply Entry.ofData?_of_value rfl h hl
      intro hl' how' value hvalue
      have htable := (levels_object_le.mp (Nat.le_sub_one_of_lt hl')).2
        ("members", .table (Entry.tableToData members)) (by simp)
      rw [Entry.table_tableToData, levels_object_le, List.forall_mem_map] at htable
      have hchild : ∀ m ∈ members, ∀ d, Rearranged .entry m.2.toData d →
          Entry.childOf? how' room d = some m.2 := by
        intro m hm d hd
        have hm' : m.2.toData.levels ≤ _ := htable.2 m hm
        rw [Entry.childOf?, if_pos (by omega)]
        exact ih m hm how' (room - 3) d (hmembers m hm) (by omega) hd
      rw [Entry.ofValue?, TypeInfo.ofData?_rearranged hvalue hl' hascending hchild, Option.map_some]
  | multiple es ih =>
      intro how room d ho hl h
      rw [Entry.Ordered, Entry.orderedList_iff] at ho
      apply Entry.ofData?_of_value rfl h hl
      intro hl' how' value hvalue
      have hlist := (levels_object_le.mp (Nat.le_sub_one_of_lt hl')).2
        ("members", .list (Entry.listToData es)) (by simp)
      rw [Entry.listToData_eq_map, levels_list_le, List.forall_mem_map] at hlist
      have hchild : ∀ e ∈ es, ∀ d, Rearranged .entry e.toData d →
          Entry.childOf? how' room d = some e := by
        intro e he d hd
        have he' := hlist.2 e he
        rw [Entry.childOf?, if_pos (by omega)]
        exact ih e he how' (room - 3) d (ho e he) (by omega) hd
      rw [Entry.ofValue?, alternatives?_rearranged hvalue (by omega) hchild, Option.map_some]
  | typeRef t =>
      intro how room d _ hl h
      apply Entry.ofData?_of_value rfl h hl
      intro hl' how' value hvalue
      rw [Entry.ofValue?, typeTarget?_rearranged hvalue hl', Option.map_some]
  | moduleRef m =>
      intro how room d _ hl h
      apply Entry.ofData?_of_value rfl h hl
      intro hl' how' value hvalue
      rw [Entry.ofValue?, moduleTarget?_rearranged hvalue hl', Option.map_some]

/-- A record with ordered tables is read from every rearrangement of its data. -/
theorem Record.ofData?_rearranged {r : Record} (ho : r.Ordered) (hl : r.toData.levels < room)
    (h : Rearranged (.struct .record) r.toData d) : Record.ofData? how room d = some r := by
  obtain ⟨hroom, hfields⟩ := levels_object_le.mp (Nat.le_sub_one_of_lt hl)
  have htable := hfields ("members", .table (Entry.tableToData r.members)) (by simp)
  rw [Entry.table_tableToData, levels_object_le, List.forall_mem_map] at htable
  have hread := Record.fields?_toData how (show 0 < room by omega) r
  obtain ⟨slots, hread', halike⟩ := h.exists_fields? (by omega) hread rfl
  simp only [alike_cons_left, alike_nil_left] at halike
  obtain ⟨_, _, hdoc, ⟨_, _, hslot, rfl, rfl⟩, rfl⟩ := halike
  obtain ⟨table, rfl, hmembers⟩ := Rearranged.exists_of_slot hslot
  rw [Rearranged.eq_of_plain_slot hdoc] at hread'
  have hback : tableOf? (room - 1) (Entry.ofData? how (room - 2)) table = some r.members := by
    apply hmembers.tableOf?_eq (by omega) ho.1
    intro m hm d hd
    have hm' : m.2.toData.levels ≤ _ := htable.2 m hm
    exact Entry.ofData?_rearranged m.2 how (room - 2) d (Entry.orderedTable_iff.mp ho.2 m hm)
      (by omega) hd
  simp [Record.ofData?, hread', hback]

end

/-! ## The written form -/

theorem Rearranged.struct_self {s : Struct} {fields : List (String × Data)}
    (h : ∀ f ∈ fields, Rearranged (s.shape f.1) f.2 f.2) :
    Rearranged (.struct s) (.object fields) (.object fields) := by
  have hstruct := @Rearranged.struct s (fields.map fun f => (f.1, f.2, f.2)) [] fields
    (List.forall_mem_map.mpr h) (List.forall_mem_nil _) (by simp [Function.comp_def])
  simpa [Function.comp_def] using hstruct

theorem Rearranged.list_self {α : Type} {item : Shape} {print : α → Data} {as : List α}
    (h : ∀ a ∈ as, Rearranged item (print a) (print a)) :
    Rearranged (.list item) (.list (as.map print)) (.list (as.map print)) := by
  have hlist := @Rearranged.list item (as.map fun a => (print a, print a))
    (List.forall_mem_map.mpr h)
  simpa [Function.comp_def] using hlist

theorem Rearranged.members_self {members : List (String × Entry)}
    (h : ∀ m ∈ members, Rearranged .entry m.2.toData m.2.toData) :
    Rearranged .members (.table (Entry.tableToData members))
      (.table (Entry.tableToData members)) := by
  rw [Entry.table_tableToData]
  have hmembers := @Rearranged.members (members.map fun m => (m.1, m.2.toData, m.2.toData))
    (members.map fun m => (m.1, m.2.toData)) (List.forall_mem_map.mpr h)
    (by simp [Function.comp_def])
  simpa [Function.comp_def] using hmembers

theorem Rearranged.entry_self {kind : Kind} {value : Data}
    (h : Rearranged (.struct kind.struct) value value) :
    Rearranged .entry (tagged kind value) (tagged kind value) :=
  .entry h (List.forall_mem_nil _) (List.Perm.of_eq (List.append_nil _).symm)

theorem Parameter.rearranged_self (p : Parameter) :
    Rearranged (.struct .parameter) p.toData p.toData := by
  apply Rearranged.struct_self
  simp only [List.forall_mem_append, forall_mem_optionalField, List.forall_mem_singleton]
  exact ⟨⟨⟨.plain _, fun _ _ => .plain _⟩, fun _ _ => .plain _⟩, fun _ _ => .plain _⟩

theorem Overload.rearranged_self (o : Overload) :
    Rearranged (.struct .overload) o.toData o.toData := by
  apply Rearranged.struct_self
  simp only [List.forall_mem_cons]
  exact ⟨.list_self fun p _ => p.rearranged_self, .plain _, List.forall_mem_nil _⟩

theorem Callable.rearranged_self (f : Callable) :
    Rearranged (.struct .callable) f.toData f.toData := by
  apply Rearranged.struct_self
  simp only [List.forall_mem_append, forall_mem_optionalField, List.forall_mem_cons]
  exact ⟨fun _ _ => .plain _, .list_self fun o _ => o.rearranged_self, .plain _, .plain _,
    List.forall_mem_nil _⟩

theorem Attribute.rearranged_self (a : Attribute) :
    Rearranged (.struct .datum) a.toData a.toData := by
  apply Rearranged.struct_self
  simp only [List.forall_mem_append, forall_mem_optionalField, List.forall_mem_singleton]
  exact ⟨fun _ _ => .plain _, .plain _⟩

theorem TypeInfo.rearranged_self (info : TypeInfo) {table : Data}
    (h : Rearranged .members table table) :
    Rearranged (.struct .type) (info.toData table) (info.toData table) := by
  have hhidden : ∀ f ∈ (if info.hidden then [("is_hidden", Data.bool true)] else []),
      Rearranged (Struct.type.shape f.1) f.2 f.2 := by
    cases info.hidden with
    | false => exact List.forall_mem_nil _
    | true => exact List.forall_mem_singleton.mpr (.plain _)
  apply Rearranged.struct_self
  simp only [List.forall_mem_append, forall_mem_optionalField, List.forall_mem_cons]
  exact ⟨⟨⟨⟨.plain _, .plain _, h, List.forall_mem_nil _⟩, fun _ _ => .plain _⟩, hhidden⟩,
    fun _ _ => .plain _⟩

theorem Entry.rearranged_self (e : Entry) : Rearranged .entry e.toData e.toData := by
  induction e using Entry.inductionOn with
  | function f | method f => rw [Entry.toData]; exact .entry_self f.rearranged_self
  | property a | data a => rw [Entry.toData]; exact .entry_self a.rearranged_self
  | type info members ih =>
      rw [Entry.toData]
      exact .entry_self (info.rearranged_self (.members_self ih))
  | multiple es ih =>
      rw [Entry.toData, Entry.listToData_eq_map]
      exact .entry_self (.struct_self (List.forall_mem_singleton.mpr (.list_self ih)))
  | typeRef t =>
      rw [Entry.toData]
      exact .entry_self (.struct_self (List.forall_mem_singleton.mpr (.plain _)))
  | moduleRef m =>
      rw [Entry.toData]
      exact .entry_self (.struct_self (List.forall_mem_singleton.mpr (.plain _)))

/-- The shapes are those in which records are written. -/
theorem Record.rearranged_self (r : Record) : Rearranged (.struct .record) r.toData r.toData := by
  apply Rearranged.struct_self
  simp only [List.forall_mem_append, forall_mem_optionalField, List.forall_mem_singleton]
  exact ⟨fun _ _ => .plain _, .members_self fun m _ => m.2.rearranged_self⟩

/-! ## Archived records -/

namespace Archive

theorem take_encode (r : Record) : (encode r).take headerSize = magic ++ [1, 0] := rfl

/-- Decoding depends neither on the order of fields and members nor on unknown fields. The payload
may be any rearrangement of the record's data, the written one among them, in any of the byte forms
of the format, with anything behind it. -/
theorem decode_rearranged {r : Record} (hr : r.Fits 900) :
    Rearranged (.struct .record) r.toData r.toData ∧
      ∀ d, Rearranged (.struct .record) r.toData d →
        (d.largest < 2 ^ 32 → Pack.Spells d (Pack.write d)) ∧
        ∀ payload, Pack.Spells d payload → ∀ t,
          decode ((encode r).take headerSize ++ payload ++ t) = .ok r := by
  refine ⟨r.rearranged_self, fun d hd => ⟨?_, ?_⟩⟩
  · intro hsize
    exact Pack.spells_write d (hd.isNative r.isNative_toData) hsize
  · intro payload hpayload t
    have hdeep : 901 ≤ Pack.maxDepth := by decide
    have hlevels : d.levels ≤ Pack.maxDepth + 1 := by
      have hle := hd.levels_le hr.nested
      omega
    have hread : Pack.read (payload ++ t) = some (d, t) := hpayload.readsAs _ t hlevels
    have hrecord : Record.ofData? .pack Pack.maxDepth d = some r := by
      have hnested := hr.nested
      exact Record.ofData?_rearranged hr.ordered (by omega) hd
    have hdecoded : decodePayload (payload ++ t) = some r := by
      simp [decodePayload, hread, hrecord]
    rw [take_encode, List.append_assoc, decode_header, hdecoded]

/-- The data of `nestedRecord` with every structure, entry and member table in reverse, and with
unknown fields of several sorts. -/
def reversedData : Data :=
  let self := Data.list [.text "m", .text "A"]
  let method := Data.object [
    ("value", .object [
      ("static", .bool true),
      ("builtin", .bool false),
      ("overloads", .list [.object [
        ("ret_type", self),
        ("params", .list [.object [
          ("future", .null),
          ("arg_format", .text "**"),
          ("default", .text "None"),
          ("name", .text "x")]])]])]),
    ("kind", .text "method")]
  let alternatives := Data.object [
    ("value", .object [
      ("members", .list [
        .object [("value", .object [("type_name", self)]), ("kind", .text "typeref")],
        .object [
          ("doc", .unsigned .w8 1),
          ("value", .object [("module_name", .text "é")]),
          ("kind", .text "moduleref")]])]),
    ("kind", .text "multiple")]
  let type := Data.object [
    ("value", .object [
      ("builtin", .bool false),
      ("is_hidden", .bool true),
      ("members", .object [("g", alternatives), ("f", method)]),
      ("bases", .list []),
      ("mro", .list [self])]),
    ("kind", .text "type")]
  let property := Data.object [
    ("value", .object [("members", .extension 7 [0xC1]), ("type", self)]),
    ("kind", .text "property")]
  .object [
    ("kind", .float [0, 0, 0, 0]),
    ("members", .object [("b", property), ("A", type)]),
    ("doc", .text "")]

theorem reversedData_rearranged :
    Rearranged (.struct .record) nestedRecord.toData reversedData := by
  -- From the outside in; a table is the reverse of the fields and the unknown fields together.
  refine @Rearranged.struct .record [("doc", _, _), ("members", _, _)] [("kind", _)] _ ?_
    (by decide) (List.reverse_perm'.mp (.refl _))
  simp only [List.forall_mem_cons]
  refine ⟨.plain _, ?_, List.forall_mem_nil _⟩
  refine @Rearranged.members [("A", _, _), ("b", _, _)] _ ?_ (List.reverse_perm'.mp (.refl _))
  simp only [List.forall_mem_cons]
  refine ⟨?_, ?_, List.forall_mem_nil _⟩
  · refine @Rearranged.entry .type _ _ [] _ ?_ (by decide) (List.reverse_perm'.mp (.refl _))
    refine @Rearranged.struct .type [("mro", _, _), ("bases", _, _), ("members", _, _),
      ("is_hidden", _, _), ("builtin", _, _)] [] _ ?_ (by decide) (List.reverse_perm'.mp (.refl _))
    simp only [List.forall_mem_cons]
    refine ⟨.plain _, .plain _, ?_, .plain _, .plain _, List.forall_mem_nil _⟩
    refine @Rearranged.members [("f", _, _), ("g", _, _)] _ ?_ (List.reverse_perm'.mp (.refl _))
    simp only [List.forall_mem_cons]
    refine ⟨?_, ?_, List.forall_mem_nil _⟩
    · refine @Rearranged.entry .method _ _ [] _ ?_ (by decide) (List.reverse_perm'.mp (.refl _))
      refine @Rearranged.struct .callable [("overloads", _, _), ("builtin", _, _),
        ("static", _, _)] [] _ ?_ (by decide) (List.reverse_perm'.mp (.refl _))
      simp only [List.forall_mem_cons]
      refine ⟨?_, .plain _, .plain _, List.forall_mem_nil _⟩
      refine @Rearranged.list (.struct .overload) [(_, _)] (List.forall_mem_singleton.mpr ?_)
      refine @Rearranged.struct .overload [("params", _, _), ("ret_type", _, _)] [] _ ?_
        (by decide) (List.reverse_perm'.mp (.refl _))
      simp only [List.forall_mem_cons]
      refine ⟨?_, .plain _, List.forall_mem_nil _⟩
      refine @Rearranged.list (.struct .parameter) [(_, _)] (List.forall_mem_singleton.mpr ?_)
      refine @Rearranged.struct .parameter [("name", _, _), ("default", _, _),
        ("arg_format", _, _)] [("future", _)] _ ?_ (by decide) (List.reverse_perm'.mp (.refl _))
      simp only [List.forall_mem_cons]
      exact ⟨.plain _, .plain _, .plain _, List.forall_mem_nil _⟩
    · refine @Rearranged.entry .multiple _ _ [] _ ?_ (by decide) (List.reverse_perm'.mp (.refl _))
      refine @Rearranged.struct .alternatives [("members", _, _)] [] _
        (List.forall_mem_singleton.mpr ?_) (by decide) (List.reverse_perm'.mp (.refl _))
      refine @Rearranged.list .entry [(_, _), (_, _)] ?_
      simp only [List.forall_mem_cons]
      refine ⟨?_, ?_, List.forall_mem_nil _⟩
      · refine @Rearranged.entry .typeRef _ _ [] _ ?_ (by decide) (List.reverse_perm'.mp (.refl _))
        exact .struct_self (List.forall_mem_singleton.mpr (.plain _))
      · refine @Rearranged.entry .moduleRef _ _ [("doc", _)] _ ?_ (by decide)
          (List.reverse_perm'.mp (.refl _))
        exact .struct_self (List.forall_mem_singleton.mpr (.plain _))
  · refine @Rearranged.entry .property _ _ [] _ ?_ (by decide) (List.reverse_perm'.mp (.refl _))
    refine @Rearranged.struct .datum [("type", _, _)] [("members", _)] _ ?_ (by decide)
      (List.reverse_perm'.mp (.refl _))
    exact List.forall_mem_singleton.mpr (.plain _)

theorem decode_rearranged_reversedData :
    nestedRecord.Fits 900 ∧ Rearranged (.struct .record) nestedRecord.toData reversedData ∧
      decode (magic ++ [1, 0] ++ Pack.write reversedData ++ [0xC1]) = .ok nestedRecord := by
  have hfits : nestedRecord.Fits 900 :=
    ⟨nestedRecord_fits.ordered, nestedRecord_fits.sized, by decide⟩
  have hsize : reversedData.largest < 2 ^ 32 := by decide +kernel
  obtain ⟨hspells, hdecode⟩ := (decode_rearranged hfits).2 reversedData reversedData_rearranged
  exact ⟨hfits, reversedData_rearranged, hdecode _ (hspells hsize) [0xC1]⟩

end Archive
end CompletionDb
