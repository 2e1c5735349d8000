import CompletionDb.Proofs.RecordLimits

/-!
# Documents beyond the reader's limit

The writer has no limit of depth and the reader has one. A record that nests deeper than the limit
is written like any other, and what was written is refused as no record. So a record in order, with
sizes that fit, is read back exactly if it nests within the limit.

Two facts carry this. More room never changes what is read, so the bytes of a document are read as
that document or not at all. And a structure is read only if there is room for every level below it,
which is shown for each structure in the way it is read back.
-/
namespace CompletionDb

/-! ## Reading with more room -/

namespace Pack
variable {item more : List UInt8 → Option (Data × List UInt8)}

theorem readItems_mono (h : ∀ bs x, item bs = some x → more bs = some x) {n : ℕ} {done : List Data}
    {bs : List UInt8} {x : List Data × List UInt8} (hread : readItems item done n bs = some x) :
    readItems more done n bs = some x := by
  induction n generalizing done bs with
  | zero => exact hread
  | succ n ih =>
      rw [readItems] at hread ⊢
      cases hitem : item bs with
      | none =>
          rw [hitem] at hread
          cases hread
      | some first =>
          rw [hitem] at hread
          rw [h bs first hitem]
          exact ih hread

theorem readEntries_mono (h : ∀ bs x, item bs = some x → more bs = some x) {n : ℕ}
    {done : List (Data × Data)} {bs : List UInt8} {x : List (Data × Data) × List UInt8}
    (hread : readEntries item done n bs = some x) : readEntries more done n bs = some x := by
  induction n generalizing done bs with
  | zero => exact hread
  | succ n ih =>
      rw [readEntries] at hread ⊢
      cases hkey : item bs with
      | none =>
          rw [hkey] at hread
          cases hread
      | some key =>
          rw [hkey] at hread
          rw [h bs key hkey]
          dsimp only at hread ⊢
          cases hvalue : item key.2 with
          | none =>
              rw [hvalue] at hread
              cases hread
          | some value =>
              rw [hvalue] at hread
              rw [h key.2 value hvalue]
              exact ih hread

theorem readItem_succ {room : ℕ} {bs : List UInt8} {x : Data × List UInt8}
    (h : readItem room bs = some x) : readItem (room + 1) bs = some x := by
  induction room generalizing bs x with
  | zero =>
      rw [readItem] at h ⊢
      cases hhead : readHead bs with
      | none =>
          rw [hhead] at h
          cases h
      | some head =>
          obtain ⟨head, rest⟩ := head
          rw [hhead] at h
          cases head with
          | item d => exact h
          | list n => cases h
          | table n => cases h
  | succ room ih =>
      rw [readItem] at h ⊢
      cases hhead : readHead bs with
      | none =>
          rw [hhead] at h
          cases h
      | some head =>
          obtain ⟨head, rest⟩ := head
          rw [hhead] at h
          cases head with
          | item d => exact h
          | list n =>
              obtain ⟨ds, hds, hx⟩ := Option.map_eq_some_iff.mp h
              exact Option.map_eq_some_iff.mpr ⟨ds, readItems_mono (fun _ _ => ih) hds, hx⟩
          | table n =>
              obtain ⟨es, hes, hx⟩ := Option.map_eq_some_iff.mp h
              exact Option.map_eq_some_iff.mpr ⟨es, readEntries_mono (fun _ _ => ih) hes, hx⟩

theorem readItem_mono {room more : ℕ} (hle : room ≤ more) {bs : List UInt8} {x : Data × List UInt8}
    (h : readItem room bs = some x) : readItem more bs = some x := by
  induction more, hle using Nat.le_induction with
  | base => exact h
  | succ more _ ih => exact readItem_succ ih

/-- The bytes of a document are read as that document, if they are read. -/
theorem eq_of_read_write {d : Data} (hn : d.isNative) (hs : d.largest < 2 ^ 32) {rest : List UInt8}
    {x : Data × List UInt8} (h : read (write d ++ rest) = some x) : x = (d, rest) := by
  have hmore := readItem_mono (le_max_left (maxDepth + 1) d.levels) h
  rw [readItem_write d _ rest hn hs (le_max_right _ _)] at hmore
  exact (Option.some.inj hmore).symm

end Pack

/-! ## Room that a structure takes -/

namespace Data
variable {β : Type}

theorem pos_of_fields? {how : Reading} {names : List String} {room : ℕ}
    {fields : List (String × Data)} {slots : List (Option Data)}
    (h : fields? how names room (object fields) = some slots) : 0 < room := by
  cases room with
  | zero => cases h
  | succ room => exact Nat.succ_pos room

theorem levels_le_of_listOf? {how : Reading} {room : ℕ} {read : Data → Option β}
    {items : List Data} {results : List β} (h : listOf? how room read (.list items) = some results)
    (hread : ∀ d ∈ items, ∀ b, read d = some b → d.levels ≤ room - 1) :
    (list items).levels ≤ room := by
  simp only [listOf?, list?, Option.bind_eq_bind, Option.bind_eq_some_iff] at h
  obtain ⟨found, hfound, hresults⟩ := h
  split_ifs at hfound with hzero
  obtain rfl := Option.some.inj hfound
  rw [levels_list_le]
  refine ⟨Nat.pos_of_ne_zero hzero, ?_⟩
  intro d hd
  obtain ⟨b, hb⟩ := (read_of_mapM hresults).1 d hd
  exact hread d hd b hb

theorem levels_le_of_tableOf? {room : ℕ} {value : Data → Option β} {fields : List (String × Data)}
    {table : Table β} (h : tableOf? room value (object fields) = some table)
    (hread : ∀ f ∈ fields, ∀ b, value f.2 = some b → f.2.levels ≤ room - 1) :
    (object fields).levels ≤ room := by
  simp only [tableOf?, object, table?, Option.bind_eq_bind, Option.bind_eq_some_iff] at h
  obtain ⟨found, hfound, results, hresults, -⟩ := h
  split_ifs at hfound with hzero
  obtain rfl := Option.some.inj hfound
  rw [levels_object_le]
  refine ⟨Nat.pos_of_ne_zero hzero, ?_⟩
  intro f hf
  obtain ⟨b, hb⟩ := (read_of_mapM hresults).1 _ (List.mem_map_of_mem hf)
  simp only [entryOf?, Option.bind_eq_bind, Option.bind_eq_some_iff] at hb
  obtain ⟨-, -, v, hv, -⟩ := hb
  exact hread f hf v hv

end Data

open Data

theorem TypeName.levels_le_of_ofData? {room : ℕ} {t u : TypeName}
    (h : TypeName.ofData? room t.toData = some u) : t.toData.levels ≤ room := by
  cases room with
  | zero => cases h
  | succ room => exact Nat.succ_le_succ (Nat.zero_le room)

theorem TypeName.levels_list_le_of_listOf? {how : Reading} {room : ℕ} {ts us : List TypeName}
    (h : listOf? how room (TypeName.ofData? (room - 1)) (.list (ts.map TypeName.toData)) =
      some us) : (Data.list (ts.map TypeName.toData)).levels ≤ room := by
  apply levels_le_of_listOf? h
  rw [List.forall_mem_map]
  intro t _ u hu
  exact TypeName.levels_le_of_ofData? hu

theorem Parameter.levels_le_of_ofData? {how : Reading} {room : ℕ} {p q : Parameter}
    (h : Parameter.ofData? how room p.toData = some q) : p.toData.levels ≤ room := by
  simp only [Parameter.ofData?, Option.bind_eq_bind, Option.bind_eq_some_iff] at h
  rcases h with ⟨slots, hslots, h⟩
  have hroom := pos_of_fields? hslots
  rw [Parameter.fields?_toData how hroom] at hslots
  cases hslots
  simp only [Option.bind_eq_some_iff] at h
  rcases h with ⟨-, -, type, htype, -⟩
  rw [Parameter.toData, levels_object_le]
  simp only [List.forall_mem_append, forall_mem_optionalField, List.forall_mem_singleton]
  refine ⟨hroom, ⟨⟨Nat.zero_le _, ?_⟩, fun _ _ => Nat.zero_le _⟩, fun _ _ => Nat.zero_le _⟩
  intro t ht
  rw [ht, Option.map_some, optional?.eq_3 _ _ (by simp [TypeName.toData])] at htype
  rcases Option.map_eq_some_iff.mp htype with ⟨u, hu, -⟩
  exact TypeName.levels_le_of_ofData? hu

theorem Overload.levels_le_of_ofData? {how : Reading} {room : ℕ} {o q : Overload}
    (h : Overload.ofData? how room o.toData = some q) : o.toData.levels ≤ room := by
  simp only [Overload.ofData?, Option.bind_eq_bind, Option.bind_eq_some_iff] at h
  rcases h with ⟨slots, hslots, h⟩
  have hroom := pos_of_fields? hslots
  rw [Overload.fields?_toData how hroom] at hslots
  cases hslots
  simp only [Option.bind_eq_some_iff, fieldOr_some, Option.bind_some] at h
  rcases h with ⟨params, hparams, returns, hreturns, -⟩
  have hlist : (Data.list (o.params.map Parameter.toData)).levels ≤ room - 1 := by
    apply levels_le_of_listOf? hparams
    rw [List.forall_mem_map]
    intro p _ q hq
    exact Parameter.levels_le_of_ofData? hq
  rw [Overload.toData, levels_object_le]
  simp only [List.forall_mem_cons]
  exact ⟨hroom, hlist, TypeName.levels_le_of_ofData? hreturns, List.forall_mem_nil _⟩

theorem Callable.levels_le_of_ofData? {how : Reading} {room : ℕ} {f q : Callable}
    (h : Callable.ofData? how room f.toData = some q) : f.toData.levels ≤ room := by
  simp only [Callable.ofData?, Option.bind_eq_bind, Option.bind_eq_some_iff] at h
  rcases h with ⟨slots, hslots, h⟩
  have hroom := pos_of_fields? hslots
  rw [Callable.fields?_toData how hroom] at hslots
  cases hslots
  simp only [Option.bind_eq_some_iff, fieldOr_some] at h
  rcases h with ⟨-, -, overloads, hoverloads, -⟩
  have hlist : (Data.list (f.overloads.map Overload.toData)).levels ≤ room - 1 := by
    apply levels_le_of_listOf? hoverloads
    rw [List.forall_mem_map]
    intro o _ q hq
    exact Overload.levels_le_of_ofData? hq
  rw [Callable.toData, levels_object_le]
  simp only [List.forall_mem_append, forall_mem_optionalField, List.forall_mem_cons]
  exact ⟨hroom, fun _ _ => Nat.zero_le _, hlist, Nat.zero_le _, Nat.zero_le _,
    List.forall_mem_nil _⟩

theorem Attribute.levels_le_of_ofData? {how : Reading} {room : ℕ} {a q : Attribute}
    (h : Attribute.ofData? how room a.toData = some q) : a.toData.levels ≤ room := by
  simp only [Attribute.ofData?, Option.bind_eq_bind, Option.bind_eq_some_iff] at h
  rcases h with ⟨slots, hslots, h⟩
  have hroom := pos_of_fields? hslots
  rw [Attribute.fields?_toData how hroom] at hslots
  cases hslots
  simp only [Option.bind_eq_some_iff, Option.bind_some] at h
  rcases h with ⟨-, -, type, htype, -⟩
  rw [Attribute.toData, levels_object_le]
  simp only [List.forall_mem_append, forall_mem_optionalField, List.forall_mem_singleton]
  exact ⟨hroom, fun _ _ => Nat.zero_le _, TypeName.levels_le_of_ofData? htype⟩

/-- A type entry's own fields, given that reading its member table takes the room of the table. -/
theorem TypeInfo.levels_le_of_ofData? {how : Reading} {child : Data → Option Entry} {room : ℕ}
    {info : TypeInfo} {table : Data} {q : TypeInfo × Table Entry}
    (h : TypeInfo.ofData? how child room (info.toData table) = some q)
    (htable : ∀ members, tableOf? (room - 1) child table = some members →
      table.levels ≤ room - 1) : (info.toData table).levels ≤ room := by
  simp only [TypeInfo.ofData?, Option.bind_eq_bind, Option.bind_eq_some_iff] at h
  rcases h with ⟨slots, hslots, h⟩
  have hroom := pos_of_fields? hslots
  rw [TypeInfo.fields?_toData how hroom] at hslots
  cases hslots
  simp only [Option.bind_eq_some_iff, fieldOr_some] at h
  rcases h with ⟨mro, hmro, bases, hbases, -, -, -, -, -, -, members, hmembers, -⟩
  have hhidden : ∀ f ∈ (if info.hidden then [("is_hidden", Data.bool true)] else []),
      f.2.levels ≤ room - 1 := by
    cases info.hidden <;> simp [levels]
  rw [TypeInfo.toData, levels_object_le]
  simp only [List.forall_mem_append, forall_mem_optionalField, List.forall_mem_cons]
  exact ⟨hroom, ⟨⟨⟨TypeName.levels_list_le_of_listOf? hmro,
    TypeName.levels_list_le_of_listOf? hbases, htable members hmembers, List.forall_mem_nil _⟩,
    fun _ _ => Nat.zero_le _⟩, hhidden⟩, fun _ _ => Nat.zero_le _⟩

theorem levels_le_of_alternatives? {how : Reading} {child : Data → Option Entry} {room : ℕ}
    {items : List Data} {es : List Entry}
    (h : alternatives? how child room (.object [("members", .list items)]) = some es)
    (hitems : ∀ d ∈ items, ∀ e, child d = some e → d.levels ≤ room - 2) :
    (object [("members", .list items)]).levels ≤ room := by
  simp only [alternatives?, Option.bind_eq_bind, Option.bind_eq_some_iff] at h
  rcases h with ⟨slots, hslots, h⟩
  have hroom := pos_of_fields? hslots
  rw [fields?_singleton how hroom] at hslots
  cases hslots
  rw [levels_object_le, List.forall_mem_singleton]
  exact ⟨hroom, levels_le_of_listOf? h hitems⟩

theorem levels_le_of_typeTarget? {how : Reading} {room : ℕ} {t u : TypeName}
    (h : typeTarget? how room (.object [("type_name", t.toData)]) = some u) :
    (object [("type_name", t.toData)]).levels ≤ room := by
  simp only [typeTarget?, Option.bind_eq_bind, Option.bind_eq_some_iff] at h
  rcases h with ⟨slots, hslots, h⟩
  have hroom := pos_of_fields? hslots
  rw [fields?_singleton how hroom] at hslots
  cases hslots
  rw [levels_object_le, List.forall_mem_singleton]
  exact ⟨hroom, TypeName.levels_le_of_ofData? h⟩

theorem levels_le_of_moduleTarget? {how : Reading} {room : ℕ} {m n : String}
    (h : moduleTarget? how room (.object [("module_name", .text m)]) = some n) :
    (object [("module_name", .text m)]).levels ≤ room := by
  simp only [moduleTarget?, Option.bind_eq_bind, Option.bind_eq_some_iff] at h
  rcases h with ⟨slots, hslots, -⟩
  rw [levels_object_le, List.forall_mem_singleton]
  exact ⟨pos_of_fields? hslots, Nat.zero_le _⟩

/-! ## Entries and records -/

/-- The reader of the entries in an entry that is read with so much room. -/
def Entry.childOf? (how : Reading) (room : ℕ) : Data → Option Entry :=
  if 3 ≤ room then Entry.ofData? how (room - 3) else fun _ => none

/-- The value of an entry is read with one level less than the entry. -/
theorem Entry.levels_tagged_le {how : Reading} {room : ℕ} {k : Kind} {value : Data} {e : Entry}
    (h : Entry.ofData? how room (tagged k value) = some e)
    (hvalue : Entry.ofValue? how (Entry.childOf? how room) (room - 1) value k = some e →
      value.levels ≤ room - 1) : (tagged k value).levels ≤ room := by
  cases room with
  | zero => cases h
  | succ room =>
      rw [Entry.ofData?_tagged (Nat.succ_pos room)] at h
      rw [levels_tagged]
      exact Nat.succ_le_succ (hvalue h)

theorem Entry.levels_le_of_childOf? {e : Entry} (ih : ∀ (how : Reading) (room : ℕ) (q : Entry),
      Entry.ofData? how room e.toData = some q → e.toData.levels ≤ room) {how : Reading} {room : ℕ}
    {q : Entry} (h : Entry.childOf? how room e.toData = some q) :
    e.toData.levels ≤ room - 1 - 2 := by
  unfold Entry.childOf? at h
  split_ifs at h
  exact ih how (room - 3) q h

theorem Entry.levels_le_of_ofData? (e : Entry) : ∀ (how : Reading) (room : ℕ) (q : Entry),
    Entry.ofData? how room e.toData = some q → e.toData.levels ≤ room := by
  induction e using Entry.inductionOn with
  | function f | method f =>
      intro how room q h
      rw [Entry.toData] at h ⊢
      apply Entry.levels_tagged_le h
      intro hvalue
      rcases Option.map_eq_some_iff.mp hvalue with ⟨g, hg, -⟩
      exact Callable.levels_le_of_ofData? hg
  | property a | data a =>
      intro how room q h
      rw [Entry.toData] at h ⊢
      apply Entry.levels_tagged_le h
      intro hvalue
      rcases Option.map_eq_some_iff.mp hvalue with ⟨b, hb, -⟩
      exact Attribute.levels_le_of_ofData? hb
  | type info members ih =>
      intro how room q h
      rw [Entry.toData] at h ⊢
      apply Entry.levels_tagged_le h
      intro hvalue
      rcases Option.map_eq_some_iff.mp hvalue with ⟨b, hb, -⟩
      apply TypeInfo.levels_le_of_ofData? hb
      intro read hread
      rw [Entry.table_tableToData] at hread ⊢
      apply levels_le_of_tableOf? hread
      rw [List.forall_mem_map]
      intro m hm e he
      exact Entry.levels_le_of_childOf? (ih m hm) he
  | multiple es ih =>
      intro how room q h
      rw [Entry.toData] at h ⊢
      apply Entry.levels_tagged_le h
      intro hvalue
      rcases Option.map_eq_some_iff.mp hvalue with ⟨read, hread, -⟩
      apply levels_le_of_alternatives? hread
      rw [Entry.listToData_eq_map, List.forall_mem_map]
      intro e he q hq
      exact Entry.levels_le_of_childOf? (ih e he) hq
  | typeRef t =>
      intro how room q h
      rw [Entry.toData] at h ⊢
      apply Entry.levels_tagged_le h
      intro hvalue
      rcases Option.map_eq_some_iff.mp hvalue with ⟨u, hu, -⟩
      exact levels_le_of_typeTarget? hu
  | moduleRef m =>
      intro how room q h
      rw [Entry.toData] at h ⊢
      apply Entry.levels_tagged_le h
      intro hvalue
      rcases Option.map_eq_some_iff.mp hvalue with ⟨n, hn, -⟩
      exact levels_le_of_moduleTarget? hn

theorem Record.levels_le_of_ofData? {how : Reading} {room : ℕ} {r q : Record}
    (h : Record.ofData? how room r.toData = some q) : r.toData.levels ≤ room := by
  simp only [Record.ofData?, Option.bind_eq_bind, Option.bind_eq_some_iff] at h
  rcases h with ⟨slots, hslots, h⟩
  have hroom := pos_of_fields? hslots
  rw [Record.fields?_toData how hroom] at hslots
  cases hslots
  simp only [Option.bind_eq_some_iff, fieldOr_some] at h
  rcases h with ⟨-, -, members, hmembers, -⟩
  have htable : (Data.table (Entry.tableToData r.members)).levels ≤ room - 1 := by
    rw [Entry.table_tableToData] at hmembers ⊢
    apply levels_le_of_tableOf? hmembers
    rw [List.forall_mem_map]
    intro m _ e he
    exact Entry.levels_le_of_ofData? m.2 how (room - 2) e he
  rw [Record.toData, levels_object_le]
  simp only [List.forall_mem_append, forall_mem_optionalField, List.forall_mem_singleton]
  exact ⟨hroom, fun _ _ => Nat.zero_le _, htable⟩

/-! ## Archived records -/

namespace Archive

/-- A record in order is read back if it nests within the limit of the reader. -/
theorem decode_encode_of_levels_le {r : Record} (ho : r.Ordered) (hs : r.Sized)
    (hl : r.toData.levels ≤ Pack.maxDepth) : decode (encode r) = .ok r := by
  have hback := decode_encode_append ⟨ho, hs, hl⟩ []
  rwa [List.append_nil] at hback

/-- A record that nests deeper is written, and what is written is no record. -/
theorem decode_encode_of_lt_levels {r : Record} (hs : r.Sized)
    (hl : Pack.maxDepth < r.toData.levels) : decode (encode r) = .error .malformed := by
  have hnone : decodePayload (Pack.write r.toData) = none := by
    rw [Option.eq_none_iff_forall_ne_some]
    intro q hq
    simp only [decodePayload, Option.bind_eq_bind, Option.bind_eq_some_iff] at hq
    rcases hq with ⟨x, hread, hq⟩
    rw [← List.append_nil (Pack.write r.toData)] at hread
    cases Pack.eq_of_read_write r.isNative_toData hs hread
    have hle := Record.levels_le_of_ofData? hq
    omega
  rw [encode, decode_header, hnone]

end Archive
end CompletionDb
