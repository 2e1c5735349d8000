import CompletionDb.Proofs.JsonText
import CompletionDb.Proofs.RecordLayout
import CompletionDb.Settings

/-!
# Records and settings read back from their JSON text

Both kinds of document are built from what the reader returns exactly as it was printed, so their
text gives their data back, in either layout, and the data gives the record or the settings. The
reader sets one limit on records, the levels that it keeps. Settings nest two levels and are held to
none but the size of a number.
-/
namespace CompletionDb
open Data

theorem Data.Textual.leaf {d : Data} (h : Textual d) : Json.Leaf d := by
  cases h with
  | text s => exact .text s
  | bool b => exact .bool b

/-! ## Settings -/

@[simp] theorem Strategy.ofData?_name (room : ℕ) (s : Strategy) :
    Strategy.ofData? room (.text s.name) = some s := by
  cases s with
  | docText => rfl
  | declared => rfl

namespace Settings

theorem tree_toData {c : Settings} (hdepth : c.maxTypeDepth ≤ Number.maxNatural) :
    Tree Json.Leaf c.toData := by
  have htext : ∀ s : String, Tree Json.Leaf (.text s) := fun s => .leaf (.text s)
  apply Tree.object
  simp only [List.forall_mem_append, forall_mem_optionalField, List.forall_mem_cons]
  refine ⟨⟨⟨htext _, List.forall_mem_nil _⟩, fun t _ => ?_⟩, .leaf (.natural hdepth), htext _, ?_,
    List.forall_mem_nil _⟩
  · exact t.tree_toData.mono fun _ hd => hd.leaf
  · exact .list (List.forall_mem_map.mpr fun s _ => htext s)

theorem fields?_toData {room : ℕ} (hroom : 0 < room) (c : Settings) :
    c.toData.fields? .json fieldNames room =
      some [some (.text c.builtinModule), c.placeholderType.map TypeName.toData,
        some (Data.ofNat c.maxTypeDepth), some (.text c.strategy.name),
        some (.list (c.skipModules.map .text))] := by
  rw [toData, fields?_sublist hroom (by decide)]
  · simp [fieldNames, List.lookup_append, Table.lookup_cons]
  · simp only [List.map_append]
    exact ((List.Sublist.refl ["builtin_module"]).append (keys_optionalField _ _ _)).append
      (List.Sublist.refl ["max_type_depth", "resolver", "skip_modules"])

theorem ofData?_toData {room : ℕ} (hroom : 1 < room) {c : Settings}
    (hdepth : c.maxTypeDepth ≤ Number.maxNatural) : ofData? room c.toData = some c := by
  have hread := fields?_toData (by omega : 0 < room) c
  have hplaceholder : optional? (TypeName.ofData? (room - 1))
      (c.placeholderType.map TypeName.toData) = some c.placeholderType :=
    optional?_map (by simp [TypeName.toData]) fun t _ =>
      TypeName.ofData?_toData (Nat.sub_pos_of_lt hroom) t
  have hnatural : natural? (Data.ofNat c.maxTypeDepth) = some c.maxTypeDepth := by
    simp [natural?, Data.ofNat, Number.natural?, Number.isWhole, Number.ofNat, hdepth]
  have hskip : listOf? .json (room - 1) text? (.list (c.skipModules.map .text)) =
      some c.skipModules :=
    listOf?_map (Nat.sub_pos_of_lt hroom) fun _ _ => rfl
  simp [ofData?, hread, hplaceholder, hnatural, hskip, text?]

end Settings

/-! ## Round trip -/

namespace Json

/-- What is printed in either layout is read back: every record that the reader has levels for, and
all settings with a depth of 64 bits. -/
theorem json_round_trip :
    (∀ r : Record, r.Ordered → r.toData.levels ≤ 127 →
      (read (compact r.toData)).bind (Record.ofData? .json maxDepth) = some r ∧
      (read (pretty r.toData)).bind (Record.ofData? .json maxDepth) = some r) ∧
    ∀ c : Settings, c.maxTypeDepth ≤ 2 ^ 64 - 1 →
      (read (compact c.toData)).bind (Settings.ofData? maxDepth) = some c ∧
      (read (pretty c.toData)).bind (Settings.ofData? maxDepth) = some c := by
  constructor
  · intro r hordered hlevels
    have htree : Tree Leaf r.toData := r.tree_toData.mono fun _ hd => hd.leaf
    rw [read_compact htree, read_pretty htree]
    exact ⟨Record.ofData?_toData hordered hlevels, Record.ofData?_toData hordered hlevels⟩
  · intro c hdepth
    have htree : Tree Leaf c.toData := Settings.tree_toData hdepth
    have hroom : 1 < maxDepth := by decide
    rw [read_compact htree, read_pretty htree]
    exact ⟨Settings.ofData?_toData hroom hdepth, Settings.ofData?_toData hroom hdepth⟩

/-- A record whose texts hold everything that is escaped, and what only looks so. -/
def escapedRecord : Record where
  doc := some "\"\\\x00\x08\t\n\x0b\x0c\r\x1f/\x7f"
  members := [
    ("\\u0041", .type { mro := [⟨"é", "日本"⟩], hidden := true } [
      ("😀\u2028", .multiple [.moduleRef "", .typeRef ⟨"a\x1bb", "\ufeff"⟩])]),
    ("null", .data { doc := some "\\n", type := ⟨"\x7b\x7d", "[1]"⟩ })]

theorem escapedRecord_ordered : escapedRecord.Ordered := by
  simp only [escapedRecord, Record.Ordered, Entry.OrderedTable, Entry.Ordered, Entry.OrderedList,
    Table.Ascending, Table.keys]
  decide

/-- The largest depth, with a placeholder. -/
def widestSettings : Settings where
  builtinModule := "\x01\""
  placeholderType := some ⟨"m", "\\"⟩
  maxTypeDepth := 18446744073709551615
  strategy := .declared
  skipModules := ["", "é\n"]

theorem json_round_trip_escaped :
    (escapedRecord.Ordered ∧ escapedRecord.toData.levels ≤ 127 ∧
      (read (pretty escapedRecord.toData)).bind (Record.ofData? .json maxDepth) =
        some escapedRecord) ∧
      (read (compact widestSettings.toData)).bind (Settings.ofData? maxDepth) =
        some widestSettings := by
  have hlevels : escapedRecord.toData.levels ≤ 127 := by decide
  have hdepth : widestSettings.maxTypeDepth ≤ 2 ^ 64 - 1 := by decide
  refine ⟨⟨escapedRecord_ordered, hlevels, ?_⟩, ?_⟩
  · exact (json_round_trip.1 escapedRecord escapedRecord_ordered hlevels).2
  · exact (json_round_trip.2 widestSettings hdepth).1

end Json
end CompletionDb
