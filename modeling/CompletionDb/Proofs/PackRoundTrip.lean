import CompletionDb.Proofs.PackForms

/-!
# MessagePack bytes read back

What `write` prints is one of the forms of the document, so `readItem` reads it, whatever bytes
follow. Three measures of a document say when: `isNative`, that it has only items of the format,
with numbers in the range of their width; `largest`, that no size in it needs more than the four
bytes of the widest head; and `levels`, that it nests no deeper than the reader has room for.
Nothing is said here about documents beyond them: the writer prints nil for items that only JSON
has, and cuts a size that does not fit.
-/
namespace CompletionDb

namespace Data

mutual
/-- Whether a document has items of MessagePack only, each in the range of its form. -/
def isNative : Data → Bool
  | .null | .bool _ | .text _ | .bytes _ | .extension .. => true
  | .number _ | .unpaired => false
  | .unsigned w n => n < 2 ^ w.bits
  | .signed w n => -2 ^ (w.bits - 1) ≤ n && n < 2 ^ (w.bits - 1)
  | .float image => image.length = 4 || image.length = 8
  | .list items => isNativeList items
  | .table entries => isNativeTable entries

def isNativeList : List Data → Bool
  | [] => true
  | d :: ds => isNative d && isNativeList ds

def isNativeTable : List (Data × Data) → Bool
  | [] => true
  | (k, v) :: rest => isNative k && isNative v && isNativeTable rest
end

mutual
/-- The largest size in a document: bytes of a text or byte string, items of a list, entries of a
table. -/
def largest : Data → ℕ
  | .text s => (Pack.utf8 s).length
  | .bytes b => b.length
  | .extension _ payload => payload.length
  | .list items => max items.length (largestList items)
  | .table entries => max entries.length (largestTable entries)
  | .null | .bool _ | .number _ | .unsigned .. | .signed .. | .float _ | .unpaired => 0

def largestList : List Data → ℕ
  | [] => 0
  | d :: ds => max (largest d) (largestList ds)

def largestTable : List (Data × Data) → ℕ
  | [] => 0
  | (k, v) :: rest => max (max (largest k) (largest v)) (largestTable rest)
end

end Data

namespace Pack

/-! ## The shortest heads -/

section
variable {size : ℕ} (hs : size < 2 ^ 32)
include hs

theorem announce_textHead : textHeads.Announce size (textHead size) := by
  unfold textHead
  split_ifs with hshort hone htwo
  · exact .short hshort
  · exact .long (by decide) (by omega)
  · exact .long (by decide) (by omega)
  · exact .long (by decide) (by omega)

theorem announce_bytesHead : bytesHeads.Announce size (bytesHead size) := by
  unfold bytesHead
  split_ifs with hone htwo
  · exact .long (by decide) (by omega)
  · exact .long (by decide) (by omega)
  · exact .long (by decide) (by omega)

theorem announce_extensionHead : extensionHeads.Announce size (extensionHead size) := by
  unfold extensionHead
  split_ifs with hone htwo
  · exact .long (by decide) (by omega)
  · exact .long (by decide) (by omega)
  · exact .long (by decide) (by omega)

theorem announce_listHead : listHeads.Announce size (listHead size) := by
  unfold listHead
  split_ifs with hshort htwo
  · exact .short hshort
  · exact .long (by decide) (by omega)
  · exact .long (by decide) (by omega)

theorem announce_tableHead : tableHeads.Announce size (tableHead size) := by
  unfold tableHead
  split_ifs with hshort htwo
  · exact .short hshort
  · exact .long (by decide) (by omega)
  · exact .long (by decide) (by omega)

end

/-! ## Items -/

theorem writeItems_eq (ds : List Data) : writeItems ds = ds.flatMap write := by
  induction ds with
  | nil => rfl
  | cons d ds ih => rw [writeItems, ih, List.flatMap_cons]

theorem writeEntries_eq (es : List (Data × Data)) :
    writeEntries es = es.flatMap fun e => write e.1 ++ write e.2 := by
  induction es with
  | nil => rfl
  | cons e es ih => rw [writeEntries, ih, List.flatMap_cons]

mutual
/-- What is written is a form of the document. -/
theorem spells_write : (d : Data) → d.isNative → d.largest < 2 ^ 32 → Spells d (write d)
  | .null, _, _ => .null
  | .bool false, _, _ => .bool false
  | .bool true, _, _ => .bool true
  | .number _, hn, _ => by simp [Data.isNative] at hn
  | .unpaired, hn, _ => by simp [Data.isNative] at hn
  | .unsigned w n, hn, _ => by
      have hw : n < 2 ^ w.bits := by simpa [Data.isNative] using hn
      exact .unsigned hw
  | .signed w n, hn, _ => by
      have hw : -2 ^ (w.bits - 1) ≤ n ∧ n < 2 ^ (w.bits - 1) := by
        simpa [Data.isNative] using hn
      exact .signed hw.1 hw.2
  | .float image, hn, _ => by
      have hw : image.length = 4 ∨ image.length = 8 := by simpa [Data.isNative] using hn
      exact .float hw
  | .text s, _, hs => .text (announce_textHead hs)
  | .bytes b, _, hs => .bytes (announce_bytesHead hs)
  | .extension tag payload, _, hs => .extension (announce_extensionHead hs)
  | .list items, hn, hs => by
      simp only [Data.isNative] at hn
      simp only [Data.largest, max_lt_iff] at hs
      have hparts : ∀ p ∈ items.map fun d => (d, write d), Spells p.1 p.2 :=
        List.forall_mem_map.mpr (spells_writeItems items hn hs.2)
      have hlist := Spells.list (by simpa using announce_listHead hs.1) hparts
      rw [write, writeItems_eq]
      simpa [List.flatMap_map, Function.comp_def] using hlist
  | .table entries, hn, hs => by
      simp only [Data.isNative] at hn
      simp only [Data.largest, max_lt_iff] at hs
      have hentries := spells_writeEntries entries hn hs.2
      have htable := @Spells.table (entries.map fun e => ((e.1, write e.1), (e.2, write e.2))) _
        (by simpa using announce_tableHead hs.1)
        (List.forall_mem_map.mpr fun e he => (hentries e he).1)
        (List.forall_mem_map.mpr fun e he => (hentries e he).2)
      rw [write, writeEntries_eq]
      simpa [List.flatMap_map, Function.comp_def] using htable

theorem spells_writeItems : (ds : List Data) → Data.isNativeList ds → Data.largestList ds < 2 ^ 32 →
    ∀ d ∈ ds, Spells d (write d)
  | [], _, _ => List.forall_mem_nil _
  | d :: ds, hn, hs => by
      simp only [Data.isNativeList, Bool.and_eq_true] at hn
      simp only [Data.largestList, max_lt_iff] at hs
      exact List.forall_mem_cons.mpr
        ⟨spells_write d hn.1 hs.1, spells_writeItems ds hn.2 hs.2⟩

theorem spells_writeEntries : (es : List (Data × Data)) → Data.isNativeTable es →
    Data.largestTable es < 2 ^ 32 → ∀ e ∈ es, Spells e.1 (write e.1) ∧ Spells e.2 (write e.2)
  | [], _, _ => List.forall_mem_nil _
  | (k, v) :: es, hn, hs => by
      simp only [Data.isNativeTable, Bool.and_eq_true] at hn
      simp only [Data.largestTable, max_lt_iff] at hs
      exact List.forall_mem_cons.mpr
        ⟨⟨spells_write k hn.1.1 hs.1.1, spells_write v hn.1.2 hs.1.2⟩,
          spells_writeEntries es hn.2 hs.2⟩
end

/-- What was written is read, and the bytes after it are left. -/
theorem readItem_write (d : Data) (room : ℕ) (rest : List UInt8) (hn : d.isNative)
    (hs : d.largest < 2 ^ 32) (hl : d.levels ≤ room) :
    readItem room (write d ++ rest) = some (d, rest) :=
  (spells_write d hn hs).readsAs room rest hl

/-- Documents within the limit are read back whole. -/
theorem read_write {d : Data} (hn : d.isNative) (hs : d.largest < 2 ^ 32)
    (hl : d.levels ≤ maxDepth) (rest : List UInt8) : read (write d ++ rest) = some (d, rest) :=
  readItem_write d (maxDepth + 1) rest hn hs (by omega)

end Pack
end CompletionDb
