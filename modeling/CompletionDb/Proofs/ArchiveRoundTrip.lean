import Mathlib.Data.Set.Function
import CompletionDb.Archive
import CompletionDb.Proofs.RecordLayout

/-!
# Archived records read back

Decoding undoes encoding, whatever bytes follow the record. The format and the reader set three
limits, collected in `Record.Fits`: tables are ordered, every text, list and table has a size of
four bytes at most, and the payload nests no deeper than the reader goes. Records of every shape
within these limits come back unchanged, so two of them with the same bytes are equal.
-/
namespace CompletionDb
open Data

/-- A record within the limits of the format, with a payload of at most `depth` levels. -/
structure Record.Fits (depth : ℕ) (r : Record) : Prop where
  ordered : r.Ordered
  sized : r.toData.largest < 2 ^ 32
  nested : r.toData.levels ≤ depth

namespace Archive

/-- Behind the header of the format, decoding is decoding of the payload. -/
theorem decode_header (payload : List UInt8) :
    decode (magic ++ [1, 0] ++ payload) =
      match decodePayload payload with
      | some r => .ok r
      | none => .error .malformed := by
  have hlong : ¬ payload.length + 1 + 1 + 1 + 1 + 1 + 1 < headerSize := by
    unfold headerSize
    omega
  cases h : decodePayload payload with
  | none => simp [decode, magic, version, hlong, h]
  | some r => simp [decode, magic, version, hlong, h]

theorem decode_encode_append {r : Record} (hr : r.Fits Pack.maxDepth) (t : List UInt8) :
    decode (encode r ++ t) = .ok r := by
  have hpack := Pack.read_write r.isNative_toData hr.sized hr.nested t
  have hpayload : decodePayload (Pack.write r.toData ++ t) = some r := by
    simp [decodePayload, hpack, Record.ofData?_toData hr.ordered hr.nested]
  rw [encode, List.append_assoc, decode_header, hpayload]

/-- Records come back from their archived form, with any bytes behind it, and the archived form
tells them apart. -/
theorem archive_round_trip :
    (∀ r : Record, r.Fits 1000 → ∀ t : List UInt8, decode (encode r ++ t) = .ok r) ∧
      Set.InjOn encode {r | r.Fits 1000} := by
  have hback : ∀ r : Record, r.Fits 1000 → ∀ t : List UInt8, decode (encode r ++ t) = .ok r := by
    intro r hr t
    have hdeep : 1000 ≤ Pack.maxDepth := by decide
    exact decode_encode_append ⟨hr.ordered, hr.sized, hr.nested.trans hdeep⟩ t
  refine ⟨hback, ?_⟩
  intro r hr r' hr' heq
  have h : Except.ok r = (Except.ok r' : Except Error Record) := by
    rw [← hback r hr [], ← hback r' hr' [], heq]
  exact Except.ok.inj h

/-- A record with a hidden type, alternatives, a default and absent fields. -/
def nestedRecord : Record where
  doc := some ""
  members := [
    ("A", .type { mro := [⟨"m", "A"⟩], hidden := true, builtin := some false } [
      ("f", .method {
        overloads := [{
          params := [{ name := "x", default := some "None", variadic := some .keyword }]
          returns := ⟨"m", "A"⟩ }]
        static := true }),
      ("g", .multiple [.typeRef ⟨"m", "A"⟩, .moduleRef "é"])]),
    ("b", .property { type := ⟨"m", "A"⟩ })]

theorem nestedRecord_fits : nestedRecord.Fits 1000 where
  ordered := by
    simp only [nestedRecord, Record.Ordered, Entry.OrderedTable, Entry.Ordered, Entry.OrderedList,
      Table.Ascending, Table.keys]
    decide
  sized := by decide +kernel
  nested := by decide

theorem archive_round_trip_nestedRecord :
    nestedRecord.Fits 1000 ∧ decode (encode nestedRecord ++ [0xC1]) = .ok nestedRecord :=
  ⟨nestedRecord_fits, archive_round_trip.1 nestedRecord nestedRecord_fits [0xC1]⟩

end Archive
end CompletionDb
