import CompletionDb.Proofs.Shapes
import CompletionDb.Record.Layout

/-!
# What the data of records is built from

Records are written as texts, flags, lists and tables under text keys, and as nothing else.
`Data.Tree` says so for any choice of leaves. What a format does with a record then follows from
what it does with the leaves, with lists and with such tables.
-/
namespace CompletionDb
open Data

/-- Induction over entries, with the members of a table and the items of a list by membership. -/
@[elab_as_elim] theorem Entry.inductionOn {P : Entry → Prop} (e : Entry)
    (function : ∀ f, P (.function f)) (method : ∀ f, P (.method f))
    (property : ∀ a, P (.property a)) (data : ∀ a, P (.data a))
    (type : ∀ info members, (∀ m ∈ members, P m.2) → P (.type info members))
    (multiple : ∀ es, (∀ e ∈ es, P e) → P (.multiple es))
    (typeRef : ∀ t, P (.typeRef t)) (moduleRef : ∀ m, P (.moduleRef m)) : P e :=
  @Entry.rec P (fun members => ∀ m ∈ members, P m.2) (fun es => ∀ e ∈ es, P e) (fun m => P m.2)
    function method property data type multiple typeRef moduleRef
    (List.forall_mem_nil _) (fun _ _ hm hmembers => List.forall_mem_cons.mpr ⟨hm, hmembers⟩)
    (List.forall_mem_nil _) (fun _ _ he hes => List.forall_mem_cons.mpr ⟨he, hes⟩)
    (fun _ _ he => he) e

theorem Entry.table_tableToData (members : List (String × Entry)) :
    Data.table (Entry.tableToData members) = object (members.map fun m => (m.1, m.2.toData)) := by
  rw [object, List.map_map]
  congr 1
  induction members with
  | nil => rfl
  | cons m members ih => rw [Entry.tableToData, ih, List.map_cons]; rfl

theorem Entry.listToData_eq_map (es : List Entry) : Entry.listToData es = es.map Entry.toData := by
  induction es with
  | nil => rfl
  | cons e es ih => rw [Entry.listToData, ih, List.map_cons]

namespace Data

/-- A document from given leaves, by lists and by tables under text keys. -/
inductive Tree (leaf : Data → Prop) : Data → Prop
  | leaf {d : Data} : leaf d → Tree leaf d
  | list {items : List Data} : (∀ d ∈ items, Tree leaf d) → Tree leaf (.list items)
  | object {fields : List (String × Data)} : (∀ f ∈ fields, Tree leaf f.2) →
      Tree leaf (.object fields)

theorem Tree.mono {leaf leaf' : Data → Prop} (hleaf : ∀ d, leaf d → leaf' d) {d : Data}
    (h : Tree leaf d) : Tree leaf' d := by
  induction h with
  | leaf hd => exact .leaf (hleaf _ hd)
  | list _ ih => exact .list ih
  | object _ ih => exact .object ih

theorem Tree.isNative {leaf : Data → Prop} (hleaf : ∀ d, leaf d → d.isNative) {d : Data}
    (h : Tree leaf d) : d.isNative := by
  induction h with
  | leaf hd => exact hleaf _ hd
  | list _ ih => exact isNative_list.mpr ih
  | object _ ih => exact isNative_object.mpr ih

/-- The leaves of records. -/
inductive Textual : Data → Prop
  | text (s : String) : Textual (.text s)
  | bool (b : Bool) : Textual (.bool b)

theorem Textual.isNative {d : Data} (h : Textual d) : d.isNative := by
  cases h <;> rfl

theorem tree_text (s : String) : Tree Textual (.text s) := .leaf (.text s)

theorem tree_bool (b : Bool) : Tree Textual (.bool b) := .leaf (.bool b)

theorem tree_list_map {α : Type} {print : α → Data} {as : List α}
    (h : ∀ a ∈ as, Tree Textual (print a)) : Tree Textual (.list (as.map print)) :=
  .list (List.forall_mem_map.mpr h)

end Data

/-! ## Parts of an entry -/

theorem TypeName.tree_toData (t : TypeName) : Tree Textual t.toData := by
  apply Tree.list
  simp only [List.forall_mem_cons]
  exact ⟨tree_text _, tree_text _, List.forall_mem_nil _⟩

theorem Parameter.tree_toData (p : Parameter) : Tree Textual p.toData := by
  apply Tree.object
  simp only [List.forall_mem_append, forall_mem_optionalField, List.forall_mem_singleton]
  exact ⟨⟨⟨tree_text _, fun t _ => t.tree_toData⟩, fun _ _ => tree_text _⟩, fun _ _ => tree_text _⟩

theorem Overload.tree_toData (o : Overload) : Tree Textual o.toData := by
  apply Tree.object
  simp only [List.forall_mem_cons]
  exact ⟨tree_list_map fun p _ => p.tree_toData, o.returns.tree_toData, List.forall_mem_nil _⟩

theorem Callable.tree_toData (f : Callable) : Tree Textual f.toData := by
  apply Tree.object
  simp only [List.forall_mem_append, forall_mem_optionalField, List.forall_mem_cons]
  exact ⟨fun _ _ => tree_text _, tree_list_map fun o _ => o.tree_toData, tree_bool _, tree_bool _,
    List.forall_mem_nil _⟩

theorem Attribute.tree_toData (a : Attribute) : Tree Textual a.toData := by
  apply Tree.object
  simp only [List.forall_mem_append, forall_mem_optionalField, List.forall_mem_singleton]
  exact ⟨fun _ _ => tree_text _, a.type.tree_toData⟩

theorem TypeInfo.tree_toData (info : TypeInfo) {members : Data} (hm : Tree Textual members) :
    Tree Textual (info.toData members) := by
  have hnames : ∀ ts : List TypeName, Tree Textual (.list (ts.map TypeName.toData)) :=
    fun ts => tree_list_map fun t _ => t.tree_toData
  have hhidden : ∀ f ∈ (if info.hidden then [("is_hidden", Data.bool true)] else []),
      Tree Textual f.2 := by
    cases info.hidden with
    | false => exact List.forall_mem_nil _
    | true => exact List.forall_mem_singleton.mpr (tree_bool true)
  apply Tree.object
  simp only [List.forall_mem_append, forall_mem_optionalField, List.forall_mem_cons]
  exact ⟨⟨⟨⟨hnames _, hnames _, hm, List.forall_mem_nil _⟩, fun _ _ => tree_text _⟩, hhidden⟩,
    fun _ _ => tree_bool _⟩

/-! ## Entries and records -/

theorem tree_tagged (k : Kind) {value : Data} (hv : Tree Textual value) :
    Tree Textual (tagged k value) := by
  apply Tree.object
  simp only [List.forall_mem_cons]
  exact ⟨tree_text _, hv, List.forall_mem_nil _⟩

theorem tree_singleton (name : String) {value : Data} (hv : Tree Textual value) :
    Tree Textual (.object [(name, value)]) :=
  .object (List.forall_mem_singleton.mpr hv)

theorem Entry.tree_tableToData {members : List (String × Entry)}
    (h : ∀ m ∈ members, Tree Textual m.2.toData) :
    Tree Textual (.table (Entry.tableToData members)) := by
  rw [Entry.table_tableToData]
  exact .object (List.forall_mem_map.mpr h)

theorem Entry.tree_toData (e : Entry) : Tree Textual e.toData := by
  induction e using Entry.inductionOn with
  | function f | method f => rw [Entry.toData]; exact tree_tagged _ f.tree_toData
  | property a | data a => rw [Entry.toData]; exact tree_tagged _ a.tree_toData
  | type info members ih =>
      rw [Entry.toData]
      exact tree_tagged _ (info.tree_toData (Entry.tree_tableToData ih))
  | multiple es ih =>
      rw [Entry.toData, Entry.listToData_eq_map]
      exact tree_tagged _ (tree_singleton _ (tree_list_map ih))
  | typeRef t => rw [Entry.toData]; exact tree_tagged _ (tree_singleton _ t.tree_toData)
  | moduleRef m => rw [Entry.toData]; exact tree_tagged _ (tree_singleton _ (tree_text m))

theorem Record.tree_toData (r : Record) : Tree Textual r.toData := by
  apply Tree.object
  simp only [List.forall_mem_append, forall_mem_optionalField, List.forall_mem_singleton]
  exact ⟨fun _ _ => tree_text _, Entry.tree_tableToData fun m _ => m.2.tree_toData⟩

/-- Records have MessagePack items only. -/
theorem Record.isNative_toData (r : Record) : r.toData.isNative :=
  r.tree_toData.isNative fun _ hd => hd.isNative

end CompletionDb
