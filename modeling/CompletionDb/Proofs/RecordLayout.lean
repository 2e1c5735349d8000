import CompletionDb.Proofs.RecordTree

/-!
# Records read back from their data

The data that a record is written as is read as that record, in either format and also when it was
held in memory, as soon as there is room for all its levels. Fields that are left out when absent
are read as absent, and nothing that is present is ever written as null, so the two do not mix.

Tables are read as maps. The reader sorts them and keeps the last entry under each key, so a record
comes back only if its own tables are ordered, at every depth. This is the order that records have
by construction; `Entry.Ordered` says it.
-/
namespace CompletionDb
open Data

mutual
/-- Every member table in an entry ascends. -/
def Entry.Ordered : Entry → Prop
  | .type _ members => Table.Ascending members ∧ Entry.OrderedTable members
  | .multiple es => Entry.OrderedList es
  | .function _ | .method _ | .property _ | .data _ | .typeRef _ | .moduleRef _ => True

def Entry.OrderedTable : List (String × Entry) → Prop
  | [] => True
  | (_, e) :: rest => Entry.Ordered e ∧ Entry.OrderedTable rest

def Entry.OrderedList : List Entry → Prop
  | [] => True
  | e :: es => Entry.Ordered e ∧ Entry.OrderedList es
end

/-- Every member table in a record ascends. -/
def Record.Ordered (r : Record) : Prop := r.members.Ascending ∧ Entry.OrderedTable r.members

mutual
def Entry.decidableOrdered : (e : Entry) → Decidable e.Ordered
  | .type _ members => @instDecidableAnd _ _ inferInstance (Entry.decidableOrderedTable members)
  | .multiple es => Entry.decidableOrderedList es
  | .function _ | .method _ | .property _ | .data _ | .typeRef _ | .moduleRef _ => .isTrue trivial

def Entry.decidableOrderedTable :
    (members : List (String × Entry)) → Decidable (Entry.OrderedTable members)
  | [] => .isTrue trivial
  | (_, e) :: rest =>
    @instDecidableAnd _ _ (Entry.decidableOrdered e) (Entry.decidableOrderedTable rest)

def Entry.decidableOrderedList : (es : List Entry) → Decidable (Entry.OrderedList es)
  | [] => .isTrue trivial
  | e :: es => @instDecidableAnd _ _ (Entry.decidableOrdered e) (Entry.decidableOrderedList es)
end

instance (r : Record) : Decidable r.Ordered :=
  @instDecidableAnd _ _ inferInstance (Entry.decidableOrderedTable r.members)

@[simp] theorem Entry.orderedTable_iff {members : List (String × Entry)} :
    Entry.OrderedTable members ↔ ∀ m ∈ members, m.2.Ordered := by
  induction members with
  | nil => simp [Entry.OrderedTable]
  | cons m members ih =>
      obtain ⟨n, e⟩ := m
      rw [Entry.OrderedTable, ih, List.forall_mem_cons]

@[simp] theorem Entry.ordered_type {info : TypeInfo} {members : Table Entry} :
    (Entry.type info members).Ordered ↔ members.Ascending ∧ ∀ m ∈ members, m.2.Ordered := by
  rw [Entry.Ordered, Entry.orderedTable_iff]

/-! ## Parts of an entry -/

theorem TypeName.ofData?_toData {room : ℕ} (hroom : 0 < room) (t : TypeName) :
    TypeName.ofData? room t.toData = some t := by
  have hne : room ≠ 0 := by omega
  simp [TypeName.ofData?, TypeName.toData, pair?, text?, hne]

theorem TypeName.levels_pos {t : TypeName} {room : ℕ} (hl : t.toData.levels ≤ room) : 0 < room :=
  (levels_list_le.mp hl).1

theorem TypeName.listOf?_map_toData {how : Reading} {room : ℕ} {ts : List TypeName}
    (hl : (Data.list (ts.map TypeName.toData)).levels ≤ room) :
    listOf? how room (TypeName.ofData? (room - 1)) (.list (ts.map TypeName.toData)) = some ts := by
  obtain ⟨hroom, hitems⟩ := levels_list_le.mp hl
  apply listOf?_map hroom
  intro t ht
  exact TypeName.ofData?_toData (TypeName.levels_pos (hitems _ (List.mem_map_of_mem ht))) t

theorem Variadic.ofData?_toData (how : Reading) (room : ℕ) (v : Variadic) :
    Variadic.ofData? how room v.toData = some v := by
  cases v with
  | positional => rfl
  | keyword => rfl

/-! The fields of each structure stand in the order of their names, and those that are left out are
read as missing. -/

theorem Parameter.fields?_toData (how : Reading) {room : ℕ} (hroom : 0 < room) (p : Parameter) :
    p.toData.fields? how ["name", "type", "default", "arg_format"] room =
      some [some (.text p.name), p.type.map TypeName.toData, p.default.map .text,
        p.variadic.map Variadic.toData] := by
  rw [Parameter.toData, fields?_sublist hroom (by decide)]
  · simp [List.lookup_append, Table.lookup_cons]
  · simp only [List.map_append]
    exact (((List.Sublist.refl ["name"]).append (keys_optionalField _ _ _)).append
      (keys_optionalField _ _ _)).append (keys_optionalField _ _ _)

theorem Overload.fields?_toData (how : Reading) {room : ℕ} (hroom : 0 < room) (o : Overload) :
    o.toData.fields? how ["params", "ret_type"] room =
      some [some (.list (o.params.map Parameter.toData)), some o.returns.toData] := by
  rw [Overload.toData, fields?_sublist hroom (by decide)]
  · simp [Table.lookup_cons]
  · exact List.Sublist.refl _

theorem Callable.fields?_toData (how : Reading) {room : ℕ} (hroom : 0 < room) (f : Callable) :
    f.toData.fields? how ["doc", "overloads", "builtin", "static"] room =
      some [f.doc.map .text, some (.list (f.overloads.map Overload.toData)),
        some (.bool f.builtin), some (.bool f.static)] := by
  rw [Callable.toData, fields?_sublist hroom (by decide)]
  · simp [List.lookup_append, Table.lookup_cons]
  · rw [List.map_append]
    exact (keys_optionalField _ _ _).append (List.Sublist.refl _)

theorem Attribute.fields?_toData (how : Reading) {room : ℕ} (hroom : 0 < room) (a : Attribute) :
    a.toData.fields? how ["doc", "type"] room = some [a.doc.map .text, some a.type.toData] := by
  rw [Attribute.toData, fields?_sublist hroom (by decide)]
  · simp [List.lookup_append, Table.lookup_cons]
  · rw [List.map_append]
    exact (keys_optionalField _ _ _).append (List.Sublist.refl _)

/-- The flag for hidden entries is written only when it is set. -/
theorem TypeInfo.fields?_toData (how : Reading) {room : ℕ} (hroom : 0 < room) (info : TypeInfo)
    (table : Data) :
    (info.toData table).fields? how
      ["mro", "bases", "members", "doc", "is_hidden", "builtin"] room =
      some [some (.list (info.mro.map TypeName.toData)),
        some (.list (info.bases.map TypeName.toData)), some table, info.doc.map .text,
        if info.hidden then some (.bool true) else none, info.builtin.map .bool] := by
  rw [TypeInfo.toData, fields?_sublist hroom (by decide)]
  · cases info.hidden <;> simp [List.lookup_append, Table.lookup_cons]
  · have hhidden : ((if info.hidden then [("is_hidden", Data.bool true)] else []).map
        Prod.fst).Sublist ["is_hidden"] := by
      cases info.hidden <;> simp
    simp only [List.map_append]
    exact (((List.Sublist.refl ["mro", "bases", "members"]).append
      (keys_optionalField _ _ _)).append hhidden).append (keys_optionalField _ _ _)

theorem Record.fields?_toData (how : Reading) {room : ℕ} (hroom : 0 < room) (r : Record) :
    r.toData.fields? how ["doc", "members"] room =
      some [r.doc.map .text, some (.table (Entry.tableToData r.members))] := by
  rw [Record.toData, fields?_sublist hroom (by decide)]
  · simp [List.lookup_append, Table.lookup_cons]
  · rw [List.map_append]
    exact (keys_optionalField _ _ _).append (List.Sublist.refl _)

/-- A structure with one field. -/
theorem fields?_singleton (how : Reading) {room : ℕ} (hroom : 0 < room) (name : String)
    (value : Data) : (object [(name, value)]).fields? how [name] room = some [some value] := by
  rw [fields?_sublist hroom (List.nodup_singleton name)]
  · simp [Table.lookup_cons]
  · exact List.Sublist.refl _

theorem Parameter.ofData?_toData {how : Reading} {room : ℕ} {p : Parameter}
    (hl : p.toData.levels ≤ room) : Parameter.ofData? how room p.toData = some p := by
  obtain ⟨hroom, hfields⟩ := levels_object_le.mp hl
  have hread := Parameter.fields?_toData how hroom p
  have htype : optional? (TypeName.ofData? (room - 1)) (p.type.map TypeName.toData) =
      some p.type := by
    apply optional?_map (by simp [TypeName.toData])
    intro t ht
    exact TypeName.ofData?_toData (TypeName.levels_pos (hfields ("type", t.toData)
      (by simp [ht, optionalField]))) t
  have hvariadic : optional? (Variadic.ofData? how (room - 1)) (p.variadic.map Variadic.toData) =
      some p.variadic :=
    optional?_map (by simp [Variadic.toData]) fun v _ => Variadic.ofData?_toData how _ v
  simp [Parameter.ofData?, hread, htype, hvariadic, text?]

theorem Overload.ofData?_toData {how : Reading} {room : ℕ} {o : Overload}
    (hl : o.toData.levels ≤ room) : Overload.ofData? how room o.toData = some o := by
  obtain ⟨hroom, hfields⟩ := levels_object_le.mp hl
  have hread := Overload.fields?_toData how hroom o
  obtain ⟨hroom', hparams⟩ := levels_list_le.mp
    (hfields ("params", .list (o.params.map Parameter.toData)) (by simp))
  have hparams : listOf? how (room - 1) (Parameter.ofData? how (room - 2))
      (.list (o.params.map Parameter.toData)) = some o.params :=
    listOf?_map hroom' fun p hp =>
      Parameter.ofData?_toData (hparams _ (List.mem_map_of_mem hp))
  have hreturns := TypeName.ofData?_toData hroom' o.returns
  simp [Overload.ofData?, hread, hparams, hreturns]

theorem Callable.ofData?_toData {how : Reading} {room : ℕ} {f : Callable}
    (hl : f.toData.levels ≤ room) : Callable.ofData? how room f.toData = some f := by
  obtain ⟨hroom, hfields⟩ := levels_object_le.mp hl
  have hread := Callable.fields?_toData how hroom f
  obtain ⟨hroom', hitems⟩ := levels_list_le.mp
    (hfields ("overloads", .list (f.overloads.map Overload.toData)) (by simp))
  have hoverloads : listOf? how (room - 1) (Overload.ofData? how (room - 2))
      (.list (f.overloads.map Overload.toData)) = some f.overloads :=
    listOf?_map hroom' fun o ho => Overload.ofData?_toData (hitems _ (List.mem_map_of_mem ho))
  simp [Callable.ofData?, hread, hoverloads, bool?]

theorem Attribute.ofData?_toData {how : Reading} {room : ℕ} {a : Attribute}
    (hl : a.toData.levels ≤ room) : Attribute.ofData? how room a.toData = some a := by
  obtain ⟨hroom, hfields⟩ := levels_object_le.mp hl
  have hread := Attribute.fields?_toData how hroom a
  have htype := TypeName.ofData?_toData
    (TypeName.levels_pos (hfields ("type", a.type.toData) (by simp))) a.type
  simp [Attribute.ofData?, hread, htype]

/-- A type entry's own fields, wherever they are read from, given that its member table is read. -/
theorem TypeInfo.ofData?_of_fields {how : Reading} {child : Data → Option Entry} {room : ℕ}
    {d table : Data} {info : TypeInfo} {members : Table Entry}
    (hread : d.fields? how ["mro", "bases", "members", "doc", "is_hidden", "builtin"] room =
      some [some (.list (info.mro.map TypeName.toData)),
        some (.list (info.bases.map TypeName.toData)), some table, info.doc.map .text,
        if info.hidden then some (.bool true) else none, info.builtin.map .bool])
    (hmro : (Data.list (info.mro.map TypeName.toData)).levels ≤ room - 1)
    (hbases : (Data.list (info.bases.map TypeName.toData)).levels ≤ room - 1)
    (hmembers : tableOf? (room - 1) child table = some members) :
    TypeInfo.ofData? how child room d = some (info, members) := by
  have hmro : listOf? how (room - 1) (TypeName.ofData? (room - 2))
      (.list (info.mro.map TypeName.toData)) = some info.mro := TypeName.listOf?_map_toData hmro
  have hbases : listOf? how (room - 1) (TypeName.ofData? (room - 2))
      (.list (info.bases.map TypeName.toData)) = some info.bases :=
    TypeName.listOf?_map_toData hbases
  have hhidden : fieldOr false bool? (if info.hidden then some (.bool true) else none) =
      some info.hidden := by
    cases info.hidden <;> rfl
  have hbuiltin : optional? bool? (info.builtin.map .bool) = some info.builtin :=
    optional?_map (by simp) (by simp [bool?])
  simp [TypeInfo.ofData?, hread, hmro, hbases, hhidden, hbuiltin, hmembers]

theorem TypeInfo.ofData?_toData {how : Reading} {child : Data → Option Entry} {room : ℕ}
    {info : TypeInfo} {table : Data} {members : Table Entry}
    (hl : (info.toData table).levels ≤ room)
    (hmembers : tableOf? (room - 1) child table = some members) :
    TypeInfo.ofData? how child room (info.toData table) = some (info, members) := by
  obtain ⟨hroom, hfields⟩ := levels_object_le.mp hl
  have hread := TypeInfo.fields?_toData how hroom info table
  exact TypeInfo.ofData?_of_fields hread (hfields ("mro", _) (by simp))
    (hfields ("bases", _) (by simp)) hmembers

theorem alternatives?_object {how : Reading} {child : Data → Option Entry} {room : ℕ}
    (hroom : 0 < room) {items : List Data} {es : List Entry}
    (hitems : listOf? how (room - 1) child (.list items) = some es) :
    alternatives? how child room (.object [("members", .list items)]) = some es := by
  have hread := fields?_singleton how hroom "members" (.list items)
  simp [alternatives?, hread, hitems]

theorem typeTarget?_object {how : Reading} {room : ℕ} (hroom : 1 < room) (t : TypeName) :
    typeTarget? how room (.object [("type_name", t.toData)]) = some t := by
  have hpos : 0 < room := by omega
  have hread := fields?_singleton how hpos "type_name" t.toData
  have htarget : TypeName.ofData? (room - 1) t.toData = some t :=
    TypeName.ofData?_toData (by omega) t
  simp [typeTarget?, hread, htarget]

theorem moduleTarget?_object {how : Reading} {room : ℕ} (hroom : 0 < room) (m : String) :
    moduleTarget? how room (.object [("module_name", .text m)]) = some m := by
  have hread := fields?_singleton how hroom "module_name" (.text m)
  simp [moduleTarget?, hread, text?]

/-! ## Entries -/

theorem Kind.ofData?_toData (how : Reading) (room : ℕ) (k : Kind) :
    Kind.ofData? how room k.toData = some k := by
  cases k <;> rfl

/-- In the written form the kind stands first, so the value is not held. -/
theorem entryParts?_tagged {how : Reading} {room : ℕ} (hroom : 0 < room) (k : Kind) (value : Data) :
    entryParts? how room (tagged k value) = some (k, value, how) := by
  have hread : (tagged k value).fields? how entryFields room =
      some [some k.toData, some value] := by
    rw [tagged, fields?_sublist hroom (by decide)]
    · simp [entryFields, Table.lookup_cons]
    · exact List.Sublist.refl _
  have hfirst : valueFirst how [(.text "kind", k.toData), (.text "value", value)] = false := rfl
  simp only [entryParts?, hread, Option.bind_eq_bind, Option.bind_some]
  simp only [tagged, object, List.map_cons, List.map_nil, hfirst, Kind.ofData?_toData]
  simp

@[simp] theorem levels_tagged (k : Kind) (value : Data) :
    (tagged k value).levels = value.levels + 1 := by
  simp [tagged, object, levels, levelsTable, Kind.toData]

theorem Entry.ofData?_tagged {how : Reading} {room : ℕ} (hroom : 0 < room) (k : Kind)
    (value : Data) :
    Entry.ofData? how room (tagged k value) =
      Entry.ofValue? how (if 3 ≤ room then Entry.ofData? how (room - 3) else fun _ => none)
        (room - 1) value k := by
  match room with
  | 0 => omega
  | 1 => simp [Entry.ofData?, entryParts?_tagged]
  | 2 => simp [Entry.ofData?, entryParts?_tagged]
  | room + 3 => simp [Entry.ofData?, entryParts?_tagged]

mutual
/-- Entries are read back. Each entry that holds others is read with the room that three levels
leave: its own table, its value and the table or list of members. -/
theorem Entry.ofData?_toData : (e : Entry) → (how : Reading) → (room : ℕ) → e.Ordered →
    e.toData.levels ≤ room → Entry.ofData? how room e.toData = some e
  | .function f, how, room, _, hl | .method f, how, room, _, hl => by
      rw [Entry.toData, levels_tagged] at hl
      have hvalue : Callable.ofData? how (room - 1) f.toData = some f :=
        Callable.ofData?_toData (by omega)
      rw [Entry.toData, Entry.ofData?_tagged (by omega), Entry.ofValue?, hvalue]
      rfl
  | .property a, how, room, _, hl | .data a, how, room, _, hl => by
      rw [Entry.toData, levels_tagged] at hl
      have hvalue : Attribute.ofData? how (room - 1) a.toData = some a :=
        Attribute.ofData?_toData (by omega)
      rw [Entry.toData, Entry.ofData?_tagged (by omega), Entry.ofValue?, hvalue]
      rfl
  | .type info members, how, room, ho, hl => by
      rw [Entry.toData, levels_tagged] at hl
      have hinfo : (info.toData (.table (Entry.tableToData members))).levels ≤ room - 1 := by omega
      have htable := (levels_object_le.mp hinfo).2 ("members", .table (Entry.tableToData members))
        (by simp)
      simp only [levels] at htable
      have hentries := Entry.mapM_tableToData members how (room - 3) ho.2 (by omega)
      have hmembers : tableOf? (room - 1 - 1) (Entry.ofData? how (room - 3))
          (.table (Entry.tableToData members)) = some members := by
        have hne : room - 1 - 1 ≠ 0 := by omega
        simp [tableOf?, table?, hne, hentries, Table.ofList_of_ascending ho.1]
      rw [Entry.toData, Entry.ofData?_tagged (by omega), if_pos (by omega), Entry.ofValue?,
        TypeInfo.ofData?_toData hinfo hmembers]
      rfl
  | .multiple es, how, room, ho, hl => by
      rw [Entry.toData, levels_tagged] at hl
      have hvalue : (object [("members", .list (Entry.listToData es))]).levels ≤ room - 1 := by
        omega
      have hlist :=
        (levels_object_le.mp hvalue).2 ("members", .list (Entry.listToData es)) (by simp)
      simp only [levels] at hlist
      have hitems := Entry.mapM_listToData es how (room - 3) ho (by omega)
      have hmembers : listOf? how (room - 1 - 1) (Entry.ofData? how (room - 3))
          (.list (Entry.listToData es)) = some es := by
        have hne : room - 1 - 1 ≠ 0 := by omega
        simp [listOf?, list?, hne, hitems]
      rw [Entry.toData, Entry.ofData?_tagged (by omega), if_pos (by omega), Entry.ofValue?,
        alternatives?_object (by omega) hmembers]
      rfl
  | .typeRef t, how, room, _, hl => by
      rw [Entry.toData, levels_tagged] at hl
      have hvalue : (object [("type_name", t.toData)]).levels ≤ room - 1 := by omega
      have hname := TypeName.levels_pos
        ((levels_object_le.mp hvalue).2 ("type_name", t.toData) (by simp))
      rw [Entry.toData, Entry.ofData?_tagged (by omega), Entry.ofValue?,
        typeTarget?_object (by omega) t]
      rfl
  | .moduleRef m, how, room, _, hl => by
      rw [Entry.toData, levels_tagged] at hl
      have hvalue : (object [("module_name", .text m)]).levels ≤ room - 1 := by omega
      rw [Entry.toData, Entry.ofData?_tagged (by omega), Entry.ofValue?,
        moduleTarget?_object (levels_object_le.mp hvalue).1 m]
      rfl

theorem Entry.mapM_tableToData : (ms : List (String × Entry)) → (how : Reading) → (room : ℕ) →
    Entry.OrderedTable ms → levelsTable (Entry.tableToData ms) ≤ room →
    (Entry.tableToData ms).mapM (entryOf? (Entry.ofData? how room)) = some ms
  | [], _, _, _, _ => rfl
  | (n, e) :: ms, how, room, ho, hl => by
      simp only [Entry.tableToData, levelsTable, max_le_iff] at hl
      have hentry := Entry.ofData?_toData e how room ho.1 hl.1.2
      have hrest := Entry.mapM_tableToData ms how room ho.2 hl.2
      simp [Entry.tableToData, entryOf?, text?, hentry, hrest]

theorem Entry.mapM_listToData : (es : List Entry) → (how : Reading) → (room : ℕ) →
    Entry.OrderedList es → levelsList (Entry.listToData es) ≤ room →
    (Entry.listToData es).mapM (Entry.ofData? how room) = some es
  | [], _, _, _, _ => rfl
  | e :: es, how, room, ho, hl => by
      simp only [Entry.listToData, levelsList, max_le_iff] at hl
      have hentry := Entry.ofData?_toData e how room ho.1 hl.1
      have hrest := Entry.mapM_listToData es how room ho.2 hl.2
      simp [Entry.listToData, hentry, hrest]
end

/-- A record with ordered tables is read back from its data, given room for its levels. -/
theorem Record.ofData?_toData {how : Reading} {room : ℕ} {r : Record} (ho : r.Ordered)
    (hl : r.toData.levels ≤ room) : Record.ofData? how room r.toData = some r := by
  obtain ⟨hroom, hfields⟩ := levels_object_le.mp hl
  have hread := Record.fields?_toData how hroom r
  have htable := hfields ("members", .table (Entry.tableToData r.members)) (by simp)
  simp only [levels] at htable
  have hentries := Entry.mapM_tableToData r.members how (room - 2) ho.2 (by omega)
  have hmembers : tableOf? (room - 1) (Entry.ofData? how (room - 2))
      (.table (Entry.tableToData r.members)) = some r.members := by
    have hne : room - 1 ≠ 0 := by omega
    simp [tableOf?, table?, hne, hentries, Table.ofList_of_ascending ho.1]
  simp [Record.ofData?, hread, hmembers]

end CompletionDb
