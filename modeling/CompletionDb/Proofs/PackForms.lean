import Mathlib.Algebra.Order.Ring.Int
import Mathlib.Data.List.Basic
import Mathlib.Tactic.Ring
import CompletionDb.Pack.Reader

/-!
# The byte forms of a document

MessagePack has several forms for one document: a size may stand in the head itself or in more bytes
than it needs, and a small integer may be a single byte. `Spells` relates a document to all its
forms. Whatever form is chosen, and whatever bytes follow it, the reader gives the document back, if
it has room for the levels of the document.
-/
namespace CompletionDb

/-- Number of bits of an integer of this width. -/
def Width.bits : Width → ℕ
  | .w8 => 8
  | .w16 => 16
  | .w32 => 32
  | .w64 => 64

namespace Pack

/-- The heads that announce a size: below a limit it is added to a base, and any size may stand in a
number of bytes behind a mark. -/
structure Heads where
  base : ℕ := 0
  limit : ℕ := 0
  marks : List (UInt8 × ℕ)

def textHeads : Heads := ⟨0xA0, 32, [(0xD9, 1), (0xDA, 2), (0xDB, 4)]⟩

def bytesHeads : Heads := { marks := [(0xC4, 1), (0xC5, 2), (0xC6, 4)] }

def extensionHeads : Heads := { marks := [(0xC7, 1), (0xC8, 2), (0xC9, 4)] }

def listHeads : Heads := ⟨0x90, 16, [(0xDC, 2), (0xDD, 4)]⟩

def tableHeads : Heads := ⟨0x80, 16, [(0xDE, 2), (0xDF, 4)]⟩

/-- Marks of extensions with a payload of a fixed size. -/
def fixedExtensions : List (UInt8 × ℕ) := [(0xD4, 1), (0xD5, 2), (0xD6, 4), (0xD7, 8), (0xD8, 16)]

/-- The bytes of a head that announces a size. -/
inductive Heads.Announce (heads : Heads) (size : ℕ) : List UInt8 → Prop
  | short : size < heads.limit → Announce heads size [UInt8.ofNat (heads.base + size)]
  | long {mark : UInt8} {width : ℕ} : (mark, width) ∈ heads.marks → size < 256 ^ width →
      Announce heads size (mark :: bigEndian width size)

/-- The bytes are a form of the document. -/
inductive Spells : Data → List UInt8 → Prop
  | null : Spells .null [0xC0]
  | bool (b : Bool) : Spells (.bool b) [if b then 0xC3 else 0xC2]
  | smallUnsigned {n : ℕ} : n < 0x80 → Spells (.unsigned .w8 n) [UInt8.ofNat n]
  | unsigned {w : Width} {n : ℕ} : n < 2 ^ w.bits → Spells (.unsigned w n) (unsignedBytes w n)
  | smallSigned {n : ℤ} : -32 ≤ n → n < 0 → Spells (.signed .w8 n) [UInt8.ofNat (0x100 + n).toNat]
  | signed {w : Width} {n : ℤ} : -2 ^ (w.bits - 1) ≤ n → n < 2 ^ (w.bits - 1) →
      Spells (.signed w n) (signedBytes w n)
  | float {image : List UInt8} : image.length = 4 ∨ image.length = 8 →
      Spells (.float image) ((if image.length = 4 then 0xCA else 0xCB) :: image)
  | text {s : String} {head : List UInt8} : textHeads.Announce (utf8 s).length head →
      Spells (.text s) (head ++ utf8 s)
  | bytes {b head : List UInt8} : bytesHeads.Announce b.length head → Spells (.bytes b) (head ++ b)
  | extension {tag : UInt8} {payload head : List UInt8} :
      extensionHeads.Announce payload.length head →
      Spells (.extension tag payload) (head ++ tag :: payload)
  | fixedExtension {mark tag : UInt8} {payload : List UInt8} :
      (mark, payload.length) ∈ fixedExtensions →
      Spells (.extension tag payload) (mark :: tag :: payload)
  | list {parts : List (Data × List UInt8)} {head : List UInt8} :
      listHeads.Announce parts.length head → (∀ p ∈ parts, Spells p.1 p.2) →
      Spells (.list (parts.map Prod.fst)) (head ++ parts.flatMap Prod.snd)
  | table {parts : List ((Data × List UInt8) × (Data × List UInt8))} {head : List UInt8} :
      tableHeads.Announce parts.length head → (∀ p ∈ parts, Spells p.1.1 p.1.2) →
      (∀ p ∈ parts, Spells p.2.1 p.2.2) →
      Spells (.table (parts.map fun p => (p.1.1, p.2.1)))
        (head ++ parts.flatMap fun p => p.1.2 ++ p.2.2)

/-! ## Numbers and runs of bytes -/

@[simp] theorem takeFrom_append (done bs rest : List UInt8) :
    takeFrom done bs.length (bs ++ rest) = some (done.reverse ++ bs, rest) := by
  induction bs generalizing done with
  | nil => simp [takeFrom]
  | cons b bs ih => simp [takeFrom, ih]

theorem take_append {bs : List UInt8} {n : ℕ} (hn : bs.length = n) (rest : List UInt8) :
    take n (bs ++ rest) = some (bs, rest) := by
  subst hn
  simp [take]

@[simp] theorem bigEndian_length (size n : ℕ) : (bigEndian size n).length = size := by
  induction size with
  | zero => rfl
  | succ size ih => simp [bigEndian, ih]

/-- Reading digits after an accumulated number, the invariant of the reader's fold. -/
theorem foldl_bigEndian (size n acc : ℕ) :
    (bigEndian size n).foldl (fun a b => a * 256 + b.toNat) acc =
      acc * 256 ^ size + n % 256 ^ size := by
  induction size generalizing acc with
  | zero => simp [bigEndian, Nat.mod_one]
  | succ size ih =>
      have hdigit : (UInt8.ofNat (n / 256 ^ size)).toNat = n / 256 ^ size % 256 := by simp
      have hsplit : n % 256 ^ (size + 1) =
          n % 256 ^ size + 256 ^ size * (n / 256 ^ size % 256) := by
        rw [pow_succ, Nat.mod_mul]
      rw [bigEndian, List.foldl_cons, ih, Nat.pow_eq, hdigit, hsplit]
      ring

theorem ofBigEndian_bigEndian {size n : ℕ} (hn : n < 256 ^ size) :
    ofBigEndian (bigEndian size n) = n := by
  rw [ofBigEndian, foldl_bigEndian, Nat.mod_eq_of_lt hn]
  omega

theorem readNat_bigEndian {size n : ℕ} (hn : n < 256 ^ size) (rest : List UInt8) :
    readNat size (bigEndian size n ++ rest) = some (n, rest) := by
  rw [readNat, take_append (bigEndian_length size n) rest]
  simp [ofBigEndian_bigEndian hn]

theorem readSized_append {size : ℕ} {bs : List UInt8} (hs : bs.length < 256 ^ size)
    (make : List UInt8 → Data) (rest : List UInt8) :
    readSized size make (bigEndian size bs.length ++ (bs ++ rest)) =
      some (.item (make bs), rest) := by
  rw [readSized, readNat_bigEndian hs]
  simp [take_append rfl]

theorem readCount_append {size n : ℕ} (hn : n < 256 ^ size) (make : ℕ → Head)
    (rest : List UInt8) :
    readCount size make (bigEndian size n ++ rest) = some (make n, rest) := by
  rw [readCount, readNat_bigEndian hn]
  rfl

theorem readUnsigned_append {size n : ℕ} (hn : n < 256 ^ size) (w : Width)
    (rest : List UInt8) :
    readUnsigned size w (bigEndian size n ++ rest) = some (.item (.unsigned w n), rest) := by
  rw [readUnsigned, readNat_bigEndian hn]
  rfl

theorem readSigned_append {size m : ℕ} {n : ℤ} (hm : m < 256 ^ size)
    (hback : toSigned (8 * size) m = n) (w : Width) (rest : List UInt8) :
    readSigned size w (bigEndian size m ++ rest) = some (.item (.signed w n), rest) := by
  rw [readSigned, readNat_bigEndian hm, ← hback]
  rfl

theorem readSizedExtension_append {size : ℕ} {bs : List UInt8} (hs : bs.length < 256 ^ size)
    (tag : UInt8) (rest : List UInt8) :
    readSizedExtension size (bigEndian size bs.length ++ (tag :: (bs ++ rest))) =
      some (.item (.extension tag bs), rest) := by
  rw [readSizedExtension, readNat_bigEndian hs]
  simp [readExtension, take_append rfl]

/-! ## Heads -/

@[simp] theorem ofTextBytes_utf8 (s : String) : ofTextBytes (utf8 s) = .text s := by
  have hbytes : (⟨(utf8 s).toArray⟩ : ByteArray) = s.toUTF8 := by simp [utf8]
  have hread : String.fromUTF8? s.toUTF8 = some s := by
    rw [String.fromUTF8?, String.toUTF8_eq_toByteArray, dif_pos s.isValidUTF8]
    rfl
  rw [ofTextBytes, hbytes, hread]

section
variable {bs head : List UInt8} {size : ℕ}

theorem readHead_text (h : textHeads.Announce bs.length head) (rest : List UInt8) :
    readHead (head ++ (bs ++ rest)) = some (.item (ofTextBytes bs), rest) := by
  cases h with
  | short hshort =>
      have hlimit : bs.length < 32 := hshort
      have hmark : (UInt8.ofNat (0xA0 + bs.length)).toNat = 0xA0 + bs.length := by
        simp only [UInt8.toNat_ofNat']
        omega
      simp only [textHeads, List.singleton_append, readHead, hmark]
      rw [if_neg (by omega), if_neg (by omega), if_neg (by omega), if_pos (by omega)]
      simp [take_append rfl]
  | long hmark hsize =>
      simp only [textHeads, List.mem_cons, Prod.mk.injEq, List.not_mem_nil, or_false] at hmark
      rcases hmark with ⟨rfl, rfl⟩ | ⟨rfl, rfl⟩ | ⟨rfl, rfl⟩
      · exact readSized_append hsize ofTextBytes rest
      · exact readSized_append hsize ofTextBytes rest
      · exact readSized_append hsize ofTextBytes rest

theorem readHead_bytes (h : bytesHeads.Announce bs.length head) (rest : List UInt8) :
    readHead (head ++ (bs ++ rest)) = some (.item (.bytes bs), rest) := by
  cases h with
  | short hshort => exact absurd hshort (Nat.not_lt_zero _)
  | long hmark hsize =>
      simp only [bytesHeads, List.mem_cons, Prod.mk.injEq, List.not_mem_nil, or_false] at hmark
      rcases hmark with ⟨rfl, rfl⟩ | ⟨rfl, rfl⟩ | ⟨rfl, rfl⟩
      · exact readSized_append hsize .bytes rest
      · exact readSized_append hsize .bytes rest
      · exact readSized_append hsize .bytes rest

theorem readHead_extension (h : extensionHeads.Announce bs.length head) (tag : UInt8)
    (rest : List UInt8) :
    readHead (head ++ (tag :: (bs ++ rest))) = some (.item (.extension tag bs), rest) := by
  cases h with
  | short hshort => exact absurd hshort (Nat.not_lt_zero _)
  | long hmark hsize =>
      simp only [extensionHeads, List.mem_cons, Prod.mk.injEq, List.not_mem_nil, or_false] at hmark
      rcases hmark with ⟨rfl, rfl⟩ | ⟨rfl, rfl⟩ | ⟨rfl, rfl⟩
      · exact readSizedExtension_append hsize tag rest
      · exact readSizedExtension_append hsize tag rest
      · exact readSizedExtension_append hsize tag rest

theorem readHead_fixedExtension {mark : UInt8} (h : (mark, bs.length) ∈ fixedExtensions)
    (tag : UInt8) (rest : List UInt8) :
    readHead (mark :: tag :: (bs ++ rest)) = some (.item (.extension tag bs), rest) := by
  have hread : ∀ n, bs.length = n →
      readExtension n (tag :: (bs ++ rest)) = some (.item (.extension tag bs), rest) := by
    intro n hn
    simp [readExtension, take_append hn]
  simp only [fixedExtensions, List.mem_cons, Prod.mk.injEq, List.not_mem_nil, or_false] at h
  rcases h with ⟨rfl, hn⟩ | ⟨rfl, hn⟩ | ⟨rfl, hn⟩ | ⟨rfl, hn⟩ | ⟨rfl, hn⟩
  · exact hread 1 hn
  · exact hread 2 hn
  · exact hread 4 hn
  · exact hread 8 hn
  · exact hread 16 hn

theorem readHead_list (h : listHeads.Announce size head) (rest : List UInt8) :
    readHead (head ++ rest) = some (.list size, rest) := by
  cases h with
  | short hshort =>
      have hlimit : size < 16 := hshort
      have hmark : (UInt8.ofNat (0x90 + size)).toNat = 0x90 + size := by
        simp only [UInt8.toNat_ofNat']
        omega
      simp only [listHeads, List.singleton_append, readHead, hmark]
      rw [if_neg (by omega), if_neg (by omega), if_pos (by omega)]
      simp
  | long hmark hsize =>
      simp only [listHeads, List.mem_cons, Prod.mk.injEq, List.not_mem_nil, or_false] at hmark
      rcases hmark with ⟨rfl, rfl⟩ | ⟨rfl, rfl⟩
      · exact readCount_append hsize .list rest
      · exact readCount_append hsize .list rest

theorem readHead_table (h : tableHeads.Announce size head) (rest : List UInt8) :
    readHead (head ++ rest) = some (.table size, rest) := by
  cases h with
  | short hshort =>
      have hlimit : size < 16 := hshort
      have hmark : (UInt8.ofNat (0x80 + size)).toNat = 0x80 + size := by
        simp only [UInt8.toNat_ofNat']
        omega
      simp only [tableHeads, List.singleton_append, readHead, hmark]
      rw [if_neg (by omega), if_pos (by omega)]
      simp
  | long hmark hsize =>
      simp only [tableHeads, List.mem_cons, Prod.mk.injEq, List.not_mem_nil, or_false] at hmark
      rcases hmark with ⟨rfl, rfl⟩ | ⟨rfl, rfl⟩
      · exact readCount_append hsize .table rest
      · exact readCount_append hsize .table rest

end

theorem readHead_smallUnsigned {n : ℕ} (hn : n < 0x80) (rest : List UInt8) :
    readHead (UInt8.ofNat n :: rest) = some (.item (.unsigned .w8 n), rest) := by
  have hmark : (UInt8.ofNat n).toNat = n := by
    simp only [UInt8.toNat_ofNat']
    omega
  simp only [readHead, hmark]
  rw [if_pos hn]

theorem readHead_smallSigned {n : ℤ} (hlow : -32 ≤ n) (hhigh : n < 0) (rest : List UInt8) :
    readHead (UInt8.ofNat (0x100 + n).toNat :: rest) = some (.item (.signed .w8 n), rest) := by
  have hmark : (UInt8.ofNat (0x100 + n).toNat).toNat = (0x100 + n).toNat := by
    simp only [UInt8.toNat_ofNat']
    omega
  have hback : ((0x100 + n).toNat : ℤ) - 0x100 = n := by omega
  simp only [readHead, hmark, hback]
  rw [if_neg (by omega), if_neg (by omega), if_neg (by omega), if_neg (by omega),
    if_neg (by omega)]

theorem readHead_unsigned {w : Width} {n : ℕ} (hn : n < 2 ^ w.bits) (rest : List UInt8) :
    readHead (unsignedBytes w n ++ rest) = some (.item (.unsigned w n), rest) := by
  cases w with
  | w8 => exact readUnsigned_append hn .w8 rest
  | w16 => exact readUnsigned_append hn .w16 rest
  | w32 => exact readUnsigned_append hn .w32 rest
  | w64 => exact readUnsigned_append hn .w64 rest

/-- Two's complement keeps the numbers in its range. -/
theorem toSigned_emod {bits : ℕ} (hbits : 0 < bits) {n : ℤ} (hlow : -2 ^ (bits - 1) ≤ n)
    (hhigh : n < 2 ^ (bits - 1)) : toSigned bits (n % 2 ^ bits).toNat = n := by
  have hdouble : (2 : ℤ) ^ bits = 2 * 2 ^ (bits - 1) := by
    rw [← pow_succ', Nat.sub_add_cancel hbits]
  have hhalf : ((2 ^ (bits - 1) : ℕ) : ℤ) = 2 ^ (bits - 1) := by norm_cast
  have hwhole : ((2 ^ bits : ℕ) : ℤ) = 2 ^ bits := by norm_cast
  rw [toSigned, Nat.pow_eq, Nat.pow_eq, hwhole]
  by_cases hn : 0 ≤ n
  · rw [Int.emod_eq_of_lt hn (by omega), if_pos (by omega), Int.toNat_of_nonneg hn]
  · have hwrap : n % 2 ^ bits = n + 2 ^ bits := by
      rw [← Int.add_emod_right, Int.emod_eq_of_lt (by omega) (by omega)]
    rw [hwrap, if_neg (by omega), Int.toNat_of_nonneg (by omega)]
    omega

theorem toNat_emod_lt (size : ℕ) (n : ℤ) : (n % 2 ^ (8 * size)).toNat < 256 ^ size := by
  have hpos : (0 : ℤ) < 2 ^ (8 * size) := pow_pos (by decide) _
  have hlt := Int.emod_lt_of_pos n hpos
  have hcast : ((256 ^ size : ℕ) : ℤ) = 2 ^ (8 * size) := by rw [pow_mul]; norm_cast
  omega

theorem readHead_signed {w : Width} {n : ℤ} (hlow : -2 ^ (w.bits - 1) ≤ n)
    (hhigh : n < 2 ^ (w.bits - 1)) (rest : List UInt8) :
    readHead (signedBytes w n ++ rest) = some (.item (.signed w n), rest) := by
  have hbits : 0 < w.bits := by cases w <;> decide
  have hback := toSigned_emod hbits hlow hhigh
  cases w with
  | w8 => exact readSigned_append (toNat_emod_lt 1 n) hback .w8 rest
  | w16 => exact readSigned_append (toNat_emod_lt 2 n) hback .w16 rest
  | w32 => exact readSigned_append (toNat_emod_lt 4 n) hback .w32 rest
  | w64 => exact readSigned_append (toNat_emod_lt 8 n) hback .w64 rest

theorem readHead_float {image : List UInt8} (hs : image.length = 4 ∨ image.length = 8)
    (rest : List UInt8) :
    readHead ((if image.length = 4 then 0xCA else 0xCB) :: (image ++ rest)) =
      some (.item (.float image), rest) := by
  rcases hs with hs | hs
  · rw [if_pos hs]
    exact congrArg (Option.map _) (take_append hs rest)
  · rw [if_neg (by omega)]
    exact congrArg (Option.map _) (take_append hs rest)

/-! ## Items -/

theorem readItem_of_item {bs rest : List UInt8} {d : Data}
    (h : readHead bs = some (.item d, rest)) (room : ℕ) : readItem room bs = some (d, rest) := by
  cases room <;> simp [readItem, h]

/-- A document is read in one of its forms, with `room` for its levels, and the bytes after it are
left. -/
def ReadsAs (d : Data) (bs : List UInt8) : Prop :=
  ∀ room rest, d.levels ≤ room → readItem room (bs ++ rest) = some (d, rest)

theorem readItems_of_readsAs {parts : List (Data × List UInt8)} (h : ∀ p ∈ parts, ReadsAs p.1 p.2)
    {room : ℕ} (hl : Data.levelsList (parts.map Prod.fst) ≤ room) (done : List Data)
    (rest : List UInt8) :
    readItems (readItem room) done parts.length (parts.flatMap Prod.snd ++ rest) =
      some (done.reverse ++ parts.map Prod.fst, rest) := by
  induction parts generalizing done with
  | nil => simp [readItems]
  | cons p parts ih =>
      rw [List.forall_mem_cons] at h
      simp only [List.map_cons, Data.levelsList, max_le_iff] at hl
      have hitem := h.1 room (parts.flatMap Prod.snd ++ rest) hl.1
      simp only [List.flatMap_cons, List.append_assoc, List.length_cons, readItems, hitem,
        ih h.2 hl.2]
      simp

theorem readEntries_of_readsAs {parts : List ((Data × List UInt8) × (Data × List UInt8))}
    (hkeys : ∀ p ∈ parts, ReadsAs p.1.1 p.1.2) (hvalues : ∀ p ∈ parts, ReadsAs p.2.1 p.2.2)
    {room : ℕ} (hl : Data.levelsTable (parts.map fun p => (p.1.1, p.2.1)) ≤ room)
    (done : List (Data × Data)) (rest : List UInt8) :
    readEntries (readItem room) done parts.length
        ((parts.flatMap fun p => p.1.2 ++ p.2.2) ++ rest) =
      some (done.reverse ++ parts.map fun p => (p.1.1, p.2.1), rest) := by
  induction parts generalizing done with
  | nil => simp [readEntries]
  | cons p parts ih =>
      rw [List.forall_mem_cons] at hkeys hvalues
      simp only [List.map_cons, Data.levelsTable, max_le_iff] at hl
      have hkey := hkeys.1 room
        (p.2.2 ++ ((parts.flatMap fun p => p.1.2 ++ p.2.2) ++ rest)) hl.1.1
      have hvalue := hvalues.1 room ((parts.flatMap fun p => p.1.2 ++ p.2.2) ++ rest) hl.1.2
      simp only [List.flatMap_cons, List.append_assoc, List.length_cons, readEntries, hkey, hvalue]
      rw [ih hkeys.2 hvalues.2 hl.2]
      simp

/-- Every form of a document is read. The induction is on the form; `room` goes down by one with
each list or table. -/
theorem Spells.readsAs {d : Data} {bs : List UInt8} (h : Spells d bs) : ReadsAs d bs := by
  induction h with
  | null => exact fun room rest _ => readItem_of_item rfl room
  | bool b =>
      intro room rest _
      cases b with
      | false => exact readItem_of_item rfl room
      | true => exact readItem_of_item rfl room
  | smallUnsigned hn =>
      exact fun room rest _ => readItem_of_item (readHead_smallUnsigned hn rest) room
  | unsigned hn => exact fun room rest _ => readItem_of_item (readHead_unsigned hn rest) room
  | smallSigned hlow hhigh =>
      exact fun room rest _ => readItem_of_item (readHead_smallSigned hlow hhigh rest) room
  | signed hlow hhigh =>
      exact fun room rest _ => readItem_of_item (readHead_signed hlow hhigh rest) room
  | float hs => exact fun room rest _ => readItem_of_item (readHead_float hs rest) room
  -- The bytes of a text are UTF-8, so they are read as a text and not as a byte string.
  | text hhead =>
      intro room rest _
      have hread := readHead_text hhead rest
      rw [ofTextBytes_utf8] at hread
      rw [List.append_assoc]
      exact readItem_of_item hread room
  | bytes hhead =>
      intro room rest _
      rw [List.append_assoc]
      exact readItem_of_item (readHead_bytes hhead rest) room
  | @extension tag payload head hhead =>
      intro room rest _
      rw [List.append_assoc]
      exact readItem_of_item (readHead_extension hhead tag rest) room
  | @fixedExtension mark tag payload hmark =>
      exact fun room rest _ => readItem_of_item (readHead_fixedExtension hmark tag rest) room
  | list hhead _ ih =>
      intro room rest hl
      rw [Data.levels] at hl
      obtain ⟨room, rfl⟩ : ∃ r, room = r + 1 := ⟨room - 1, by omega⟩
      have hitems := readItems_of_readsAs ih (Nat.le_of_succ_le_succ hl) [] rest
      rw [List.append_assoc, readItem, readHead_list hhead]
      simp [hitems]
  | table hhead _ _ hkeys hvalues =>
      intro room rest hl
      rw [Data.levels] at hl
      obtain ⟨room, rfl⟩ : ∃ r, room = r + 1 := ⟨room - 1, by omega⟩
      have hentries := readEntries_of_readsAs hkeys hvalues (Nat.le_of_succ_le_succ hl) [] rest
      rw [List.append_assoc, readItem, readHead_table hhead]
      simp [hentries]

end Pack
end CompletionDb
