import CompletionDb.Proofs.ReaderLimit

/-!
# Archives that are cut off

A file that was cut off in the middle is never taken for a smaller record. Members, fields and whole
tables may be missing from a record, so the shape of what is left does not show it; the bytes do.
The reader looks at no byte behind the item that it reads. If it read an item from the front part of
a document, it would read the same item from the whole document and leave bytes over. But documents
are read to their end.

The limit of depth plays no part in this: with more room the reader gives the answer that it gave
before, or one where it gave none.
-/
namespace CompletionDb
namespace Pack
variable {α β : Type}

/-- A reader that looks at no byte behind what it reads. -/
def Local (read : List UInt8 → Option (α × List UInt8)) : Prop :=
  ∀ bs a rest, read bs = some (a, rest) → ∀ t, read (bs ++ t) = some (a, rest ++ t)

section
variable {read : List UInt8 → Option (α × List UInt8)}

theorem Local.map (h : Local read) (make : α → β) :
    Local fun bs => (read bs).map fun x => (make x.1, x.2) := by
  intro bs b rest hread t
  rcases Option.map_eq_some_iff.mp hread with ⟨⟨a, left⟩, ha, hb⟩
  cases hb
  exact Option.map_eq_some_iff.mpr ⟨(a, left ++ t), h bs a left ha t, rfl⟩

/-- One reader after another, which may depend on what the first one has read. -/
theorem Local.next {both : List UInt8 → Option (β × List UInt8)}
    {more : α → List UInt8 → Option (β × List UInt8)} (h : Local read) (hmore : ∀ a, Local (more a))
    (hnone : ∀ bs, read bs = none → both bs = none)
    (hsome : ∀ bs a rest, read bs = some (a, rest) → both bs = more a rest) : Local both := by
  intro bs b rest hread t
  cases hfirst : read bs with
  | none =>
      rw [hnone bs hfirst] at hread
      cases hread
  | some first =>
      rcases first with ⟨a, left⟩
      rw [hsome bs a left hfirst] at hread
      rw [hsome (bs ++ t) a (left ++ t) (h bs a left hfirst t)]
      exact hmore a left b rest hread t

end

/-! ## Heads -/

theorem local_take (n : ℕ) : Local (take n) := by
  have hfrom : ∀ taken, Local (takeFrom taken n) := by
    induction n with
    | zero =>
        intro taken bs a rest hread t
        rw [takeFrom, Option.some.injEq, Prod.mk.injEq] at hread
        rw [takeFrom, hread.1, hread.2]
    | succ n ih =>
        intro taken bs a rest hread t
        cases bs with
        | nil => cases hread
        | cons b bs => exact ih (b :: taken) bs a rest hread t
  exact hfrom []

theorem local_readNat (size : ℕ) : Local (readNat size) := (local_take size).map ofBigEndian

theorem local_readSized (size : ℕ) (make : List UInt8 → Data) : Local (readSized size make) := by
  apply (local_readNat size).next fun n => (local_take n).map fun b => Head.item (make b)
  · intro bs hnone
    rw [readSized, hnone]
  · intro bs n rest hsome
    rw [readSized, hsome]

theorem local_readExtension (size : ℕ) : Local (readExtension size) := by
  intro bs a rest hread t
  cases bs with
  | nil => cases hread
  | cons tag bs =>
      exact (local_take size).map (fun b => Head.item (.extension tag b)) bs a rest hread t

theorem local_readSizedExtension (size : ℕ) : Local (readSizedExtension size) := by
  apply (local_readNat size).next local_readExtension
  · intro bs hnone
    rw [readSizedExtension, hnone]
  · intro bs n rest hsome
    rw [readSizedExtension, hsome]

theorem local_readCount (size : ℕ) (make : ℕ → Head) : Local (readCount size make) :=
  (local_readNat size).map make

theorem local_readUnsigned (size : ℕ) (width : Width) : Local (readUnsigned size width) :=
  (local_readNat size).map fun n => Head.item (.unsigned width n)

theorem local_readSigned (size : ℕ) (width : Width) : Local (readSigned size width) :=
  (local_readNat size).map fun n => Head.item (.signed width (toSigned (8 * size) n))

theorem local_some (a : α) : Local fun bs => some (a, bs) := by
  intro bs b rest hread t
  cases hread
  rfl

theorem local_none : Local fun _ => (none : Option (α × List UInt8)) := by
  intro bs b rest hread
  cases hread

theorem local_readMarked (mark : ℕ) : Local (readMarked mark) := by
  unfold readMarked
  split
  case h_1 | h_2 | h_3 => exact local_some _
  case h_4 | h_5 | h_6 | h_25 | h_26 | h_27 => exact local_readSized _ _
  case h_7 | h_8 | h_9 => exact local_readSizedExtension _
  case h_10 | h_11 => exact (local_take _).map fun b => Head.item (.float b)
  case h_12 | h_13 | h_14 | h_15 => exact local_readUnsigned _ _
  case h_16 | h_17 | h_18 | h_19 => exact local_readSigned _ _
  case h_20 | h_21 | h_22 | h_23 | h_24 => exact local_readExtension _
  case h_28 | h_29 | h_30 | h_31 => exact local_readCount _ _
  case h_32 => exact local_none

theorem local_readHead : Local readHead := by
  intro bs head rest hread t
  cases bs with
  | nil => cases hread
  | cons b bs =>
      rw [readHead] at hread
      rw [List.cons_append, readHead]
      dsimp only at hread ⊢
      split_ifs at hread ⊢
      · exact local_some _ bs head rest hread t
      · exact local_some _ bs head rest hread t
      · exact local_some _ bs head rest hread t
      · exact (local_take _).map (fun b => Head.item (ofTextBytes b)) bs head rest hread t
      · exact local_readMarked _ bs head rest hread t
      · exact local_some _ bs head rest hread t

/-! ## Items -/

theorem local_readItems {item : List UInt8 → Option (Data × List UInt8)} (h : Local item) (n : ℕ) :
    ∀ done, Local (readItems item done n) := by
  induction n with
  | zero => exact fun done => local_some done.reverse
  | succ n ih =>
      intro done
      apply h.next fun d => ih (d :: done)
      · intro bs hnone
        rw [readItems, hnone]
      · intro bs d rest hsome
        rw [readItems, hsome]

theorem local_readEntries {item : List UInt8 → Option (Data × List UInt8)} (h : Local item)
    (n : ℕ) : ∀ done, Local (readEntries item done n) := by
  induction n with
  | zero => exact fun done => local_some done.reverse
  | succ n ih =>
      intro done
      have hvalue : ∀ key, Local fun bs =>
          (item bs).bind fun value => readEntries item ((key, value.1) :: done) n value.2 := by
        intro key
        apply h.next fun value => ih ((key, value) :: done)
        · intro bs hnone
          rw [hnone, Option.bind_none]
        · intro bs value rest hsome
          rw [hsome, Option.bind_some]
      apply h.next hvalue
      · intro bs hnone
        rw [readEntries, hnone]
      · intro bs key rest hsome
        rw [readEntries, hsome]
        dsimp only
        cases item rest <;> rfl

/-- What is local with less room is local with one level more, and only lists and tables ask for
that level. -/
theorem local_readItem (room : ℕ) : Local (readItem room) := by
  induction room using Nat.strong_induction_on with
  | _ room ih =>
      intro bs d rest hread t
      rw [readItem.eq_def] at hread ⊢
      dsimp only at hread ⊢
      cases hhead : readHead bs with
      | none =>
          rw [hhead] at hread
          cases hread
      | some head =>
          rcases head with ⟨head, left⟩
          rw [hhead] at hread
          rw [local_readHead bs head left hhead t]
          cases head with
          | item e => exact local_some e left d rest hread t
          | list n =>
              cases room with
              | zero => cases hread
              | succ room =>
                  have hitems := local_readItems (ih room (Nat.lt_succ_self room)) n []
                  exact hitems.map Data.list left d rest hread t
          | table n =>
              cases room with
              | zero => cases hread
              | succ room =>
                  have hentries := local_readEntries (ih room (Nat.lt_succ_self room)) n []
                  exact hentries.map Data.table left d rest hread t

/-- No item is read from the front part of a document. -/
theorem readItem_cut {d : Data} (hn : d.isNative) (hs : d.largest < 2 ^ 32) {front cut : List UInt8}
    (hcut : cut ≠ []) (hwrite : front ++ cut = write d) (room : ℕ) :
    readItem room front = none := by
  cases hread : readItem room front with
  | none => rfl
  | some x =>
      rcases x with ⟨e, rest⟩
      have hlonger := local_readItem room front e rest hread cut
      have hdeeper := readItem_mono (le_max_left room d.levels) hlonger
      have hwhole := readItem_write d (max room d.levels) [] hn hs (le_max_right _ _)
      rw [hwrite, ← List.append_nil (write d), hwhole, Option.some.injEq, Prod.mk.injEq] at hdeeper
      exact absurd (List.append_eq_nil_iff.mp hdeeper.2.symm).2 hcut

end Pack

namespace Archive

/-- Decoding refuses an archive that is cut off. Inside the header the length tells it; behind the
header the payload is no record. -/
theorem cut_archive_refused {r : Record} (hs : r.toData.largest < 2 ^ 32) {b : List UInt8}
    (hb : b <+: encode r) (hne : b ≠ encode r) :
    decode b = if b.length < 6 then .error (.truncated b.length) else .error .malformed := by
  split_ifs with hshort
  · unfold decode
    exact if_pos hshort
  · have hheader : magic ++ [1, 0] <+: b :=
      List.prefix_of_prefix_length_le (List.prefix_append _ _) hb (Nat.le_of_not_lt hshort)
    rcases hheader with ⟨front, rfl⟩
    rcases hb with ⟨cut, hcut⟩
    have hpayload : front ++ cut = Pack.write r.toData := by
      rw [encode, List.append_assoc, List.append_cancel_left_eq] at hcut
      exact hcut
    have hmissing : cut ≠ [] := by
      intro hnone
      rw [hnone, List.append_nil] at hcut
      exact hne hcut
    have hread : Pack.read front = none :=
      Pack.readItem_cut r.isNative_toData hs hmissing hpayload (Pack.maxDepth + 1)
    rw [decode_header, decodePayload, hread]
    rfl

/-- Cut off between two members of a type and inside the header. -/
theorem cut_archive_refused_nestedRecord :
    ((encode nestedRecord).take 175 <+: encode nestedRecord ∧
      decode ((encode nestedRecord).take 175) = .error .malformed) ∧
      decode ((encode nestedRecord).take 4) = .error (.truncated 4) := by
  have hlong : 175 < (encode nestedRecord).length := by decide +kernel
  have hcut : ∀ n, n < (encode nestedRecord).length →
      (encode nestedRecord).take n ≠ encode nestedRecord := by
    intro n hn heq
    have hlength := congrArg List.length heq
    rw [List.length_take] at hlength
    omega
  refine ⟨⟨List.take_prefix _ _, ?_⟩, ?_⟩
  · rw [cut_archive_refused nestedRecord_fits.sized (List.take_prefix _ _) (hcut 175 hlong),
      List.length_take_of_le hlong.le]
    rfl
  · have hfew : 4 < (encode nestedRecord).length := by omega
    rw [cut_archive_refused nestedRecord_fits.sized (List.take_prefix _ _) (hcut 4 hfew),
      List.length_take_of_le hfew.le]
    rfl

end Archive
end CompletionDb
