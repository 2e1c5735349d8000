import Mathlib.Data.List.Forall2
import CompletionDb.Proofs.Shapes

/-!
# Fields in any order

A structure is read by putting the values of a table, one after another, in the places of their
fields. Two entries can be put in either order, so every order of the entries gives the same fields;
an entry under an unknown key changes no place; and values that are replaced by related ones are
found in the same places.

Member tables are read entry by entry and then sorted, so their order does not matter either.
-/
namespace CompletionDb

namespace Table
variable {α : Type}

theorem lastOfRuns_of_nodup {table : Table α} (h : table.keys.Nodup) :
    lastOfRuns table = table := by
  induction table with
  | nil => rfl
  | cons entry rest ih =>
      obtain ⟨hfirst, hrest⟩ := List.nodup_cons.mp h
      cases rest with
      | nil => rfl
      | cons next rest =>
          have hne : entry.1 ≠ next.1 := fun heq => hfirst (heq ▸ List.mem_cons_self)
          rw [lastOfRuns, if_neg hne, ih hrest]

theorem ofList_perm {entries : List (String × α)} (h : (entries.map Prod.fst).Nodup) :
    (ofList entries).Perm entries := by
  unfold ofList
  split_ifs
  · exact List.Perm.refl entries
  · have hsorted := List.mergeSort_perm entries fun a b => decide (a.1 ≤ b.1)
    rw [lastOfRuns_of_nodup ((hsorted.map Prod.fst).nodup_iff.mpr h)]
    exact hsorted

/-- A table in ascending order is the table of its entries in any order. -/
theorem ofList_of_perm {entries : List (String × α)} {table : Table α} (h : table.Ascending)
    (hperm : entries.Perm table) : ofList entries = table := by
  have hkeys : (entries.map Prod.fst).Nodup :=
    (hperm.map Prod.fst).nodup_iff.mpr (h.imp fun hlt => String.ne_of_lt hlt)
  have hless : ∀ a b : String × α, a.1 < b.1 → b.1 < a.1 → a = b :=
    fun a b hab hba => absurd hab (String.lt_asymm hba)
  exact List.Perm.eq_of_pairwise (fun a b _ _ => hless a b)
    (List.pairwise_map.mp (ascending_ofList entries)) (List.pairwise_map.mp h)
    ((ofList_perm hkeys).trans hperm)

end Table

namespace Data

/-! ## One entry after another -/

/-- A place that is there and has no value. -/
def isFree (slots : List (Option Data)) (i : ℕ) : Bool := slots[i]?.any Option.isNone

/-- Put a value in a place that is free. -/
def put (slots : List (Option Data)) (i : ℕ) (value : Data) : Option (List (Option Data)) :=
  if isFree slots i then some (slots.set i (some value)) else none

/-- Put the value of an entry in the place of its field. -/
def place (how : Reading) (names : List String) (room : ℕ) (slots : List (Option Data))
    (entry : Data × Data) : Option (List (Option Data)) :=
  match position? how names entry.1 with
  | none => none
  | some none => if entry.2.ignorable how room then some slots else none
  | some (some i) => put slots i entry.2

@[simp] theorem isFree_iff {slots : List (Option Data)} {i : ℕ} :
    isFree slots i = true ↔ slots[i]? = some none := by
  simp [isFree, Option.any_eq_true]

/-- Values of two fields do not meet, and of two values of one field the second is refused. -/
theorem put_comm (slots : List (Option Data)) (i j : ℕ) (v w : Data) :
    (put slots i v).bind (put · j w) = (put slots j w).bind (put · i v) := by
  by_cases hij : i = j
  · subst hij
    have hfull : ∀ d, isFree (slots.set i (some d)) i = false := by
      intro d
      rw [isFree, List.getElem?_set_self']
      cases slots[i]? <;> rfl
    by_cases hfree : isFree slots i
    · simp [put, hfree, hfull]
    · simp [put, hfree]
  · have hi : ∀ d, isFree (slots.set j (some d)) i = isFree slots i := fun d => by
      rw [isFree, List.getElem?_set_ne (Ne.symm hij), isFree]
    have hj : ∀ d, isFree (slots.set i (some d)) j = isFree slots j := fun d => by
      rw [isFree, List.getElem?_set_ne hij, isFree]
    by_cases hfree : isFree slots i <;> by_cases hfree' : isFree slots j
    · simp [put, hi, hj, hfree, hfree', List.set_comm _ _ hij]
    · simp [put, hj, hfree, hfree']
    · simp [put, hi, hfree, hfree']
    · simp [put, hfree, hfree']

section
variable {how : Reading} {names : List String} {room : ℕ}

theorem fill_cons (entry : Data × Data) (rest : List (Data × Data)) (slots : List (Option Data)) :
    fill how names room (entry :: rest) slots =
      (place how names room slots entry).bind (fill how names room rest) := by
  rw [fill, place]
  rcases position? how names entry.1 with _ | _ | i
  · rfl
  · dsimp only
    split_ifs <;> rfl
  · dsimp only [put]
    split
    · rename_i hslot
      rw [if_pos (isFree_iff.mpr hslot), Option.bind_some]
    · rename_i hslot
      rw [if_neg (fun h => hslot (isFree_iff.mp h)), Option.bind_none]

/-- Two entries can be put in either order. -/
theorem place_comm (slots : List (Option Data)) (a b : Data × Data) :
    (place how names room slots a).bind (place how names room · b) =
      (place how names room slots b).bind (place how names room · a) := by
  unfold place
  rcases position? how names a.1 with _ | _ | i
  · simp
  · by_cases ha : a.2.ignorable how room <;> simp [ha]
  · rcases position? how names b.1 with _ | _ | j
    · simp
    · by_cases hb : b.2.ignorable how room <;> simp [hb]
    · exact put_comm slots i j a.2 b.2

/-- The order of the entries does not matter. -/
theorem fill_perm {entries entries' : List (Data × Data)} (h : entries.Perm entries')
    (slots : List (Option Data)) :
    fill how names room entries slots = fill how names room entries' slots := by
  induction h generalizing slots with
  | nil => rfl
  | cons entry _ ih =>
      rw [fill_cons, fill_cons]
      exact congrArg _ (funext ih)
  | swap a b rest =>
      simp only [fill_cons]
      rw [← Option.bind_assoc, place_comm, Option.bind_assoc]
  | trans _ _ ih ih' => exact (ih slots).trans (ih' slots)

theorem fill_append (entries more : List (Data × Data)) (slots : List (Option Data)) :
    fill how names room (entries ++ more) slots =
      (fill how names room entries slots).bind (fill how names room more) := by
  induction entries generalizing slots with
  | nil => rfl
  | cons entry entries ih =>
      rw [List.cons_append, fill_cons, fill_cons, Option.bind_assoc]
      exact congrArg _ (funext ih)

/-! ## Unknown keys -/

/-- Whether an item of the format holds no other item. -/
def isScalar : Data → Bool
  | .list _ | .table _ => false
  | d => d.isNative

/-- Entries under keys that are none of the names, with scalar values. -/
def Unknown (names : List String) (extra : List (String × Data)) : Prop :=
  ∀ f ∈ extra, f.1 ∉ names ∧ f.2.isScalar

instance (names : List String) (extra : List (String × Data)) : Decidable (Unknown names extra) :=
  inferInstanceAs (Decidable (∀ f ∈ extra, f.1 ∉ names ∧ f.2.isScalar))

theorem isNative_of_isScalar {d : Data} (h : d.isScalar) : d.isNative := by
  cases d with
  | list items => cases h
  | table entries => cases h
  | _ => exact h

/-- Extensions are scalars that take a level. -/
theorem levels_of_isScalar {d : Data} (h : d.isScalar) : d.levels ≤ 1 := by
  cases d with
  | list items => cases h
  | table entries => cases h
  | _ => simp [levels]

theorem place_unknown (hroom : 0 < room) {f : String × Data} (hkey : f.1 ∉ names)
    (hvalue : f.2.isScalar) (slots : List (Option Data)) :
    place how names room slots (.text f.1, f.2) = some slots := by
  have hskip : f.2.ignorable how room = true := by
    have hlevels := (levels_of_isScalar hvalue).trans hroom
    simp [ignorable, hlevels]
  rw [place, position?_text, List.idxOf?_eq_none_iff.mpr hkey]
  exact if_pos hskip

theorem fill_unknown (hroom : 0 < room) {extra : List (String × Data)} (h : Unknown names extra)
    (slots : List (Option Data)) :
    fill how names room (extra.map fun f => (.text f.1, f.2)) slots = some slots := by
  induction extra with
  | nil => rfl
  | cons f extra ih =>
      obtain ⟨hf, hextra⟩ := List.forall_mem_cons.mp h
      rw [List.map_cons, fill_cons, place_unknown hroom hf.1 hf.2, Option.bind_some, ih hextra]

/-- The fields of a structure do not depend on the order of its entries, nor on unknown ones. -/
theorem fields?_extended (hroom : 1 < room) {fields extra entries : List (String × Data)}
    (hextra : Unknown names extra) (hperm : entries.Perm (fields ++ extra)) :
    fields? how names room (object entries) = fields? how names room (object fields) := by
  have hfill : ∀ slots, fill how names (room - 1) (entries.map fun f => (.text f.1, f.2)) slots =
      fill how names (room - 1) (fields.map fun f => (.text f.1, f.2)) slots := by
    intro slots
    rw [fill_perm (hperm.map fun f => (.text f.1, f.2)), List.map_append, fill_append]
    cases fill how names (room - 1) (fields.map fun f => (.text f.1, f.2)) slots with
    | none => rfl
    | some filled => exact fill_unknown (by omega) hextra filled
  rw [object, object, fields?, fields?, hfill]

/-! ## Related values -/

/-- Slots with values in the same places, related in a way that may depend on the place. -/
def Alike (R : ℕ → Data → Data → Prop) (xs ys : List (Option Data)) : Prop :=
  ∀ i, Option.Rel (Option.Rel (R i)) xs[i]? ys[i]?

variable {R : ℕ → Data → Data → Prop} {xs ys slots : List (Option Data)}

theorem alike_replicate_none (n : ℕ) : Alike R (List.replicate n none) (List.replicate n none) := by
  intro i
  rw [List.getElem?_replicate]
  split_ifs
  · exact .some .none
  · exact .none

theorem Alike.isFree_eq (h : Alike R xs ys) (i : ℕ) : isFree xs i = isFree ys i := by
  have hi := h i
  rw [isFree, isFree]
  generalize xs[i]? = x, ys[i]? = y at hi ⊢
  cases hi with
  | none => rfl
  | some hslot => cases hslot <;> rfl

theorem Alike.set (h : Alike R xs ys) {i : ℕ} {v w : Data} (hvw : R i v w) :
    Alike R (xs.set i (some v)) (ys.set i (some w)) := by
  intro j
  by_cases hij : i = j
  · subst hij
    have hi := h i
    rw [List.getElem?_set_self', List.getElem?_set_self']
    generalize xs[i]? = x, ys[i]? = y at hi ⊢
    cases hi with
    | none => exact .none
    | some _ => exact .some (.some hvw)
  · rw [List.getElem?_set_ne hij, List.getElem?_set_ne hij]
    exact h j

theorem alike_nil_left : Alike R [] ys ↔ ys = [] := by
  refine ⟨fun h => ?_, fun h i => ?_⟩
  · cases ys with
    | nil => rfl
    | cons y ys =>
        have hfirst := h 0
        cases hfirst
  · rw [h]
    exact .none

theorem alike_cons_left {x : Option Data} :
    Alike R (x :: xs) ys ↔
      ∃ y ys', Option.Rel (R 0) x y ∧ Alike (fun i => R (i + 1)) xs ys' ∧ ys = y :: ys' := by
  constructor
  · intro h
    cases ys with
    | nil =>
        have hfirst := h 0
        cases hfirst
    | cons y ys =>
        have hfirst := h 0
        rw [List.getElem?_cons_zero, List.getElem?_cons_zero] at hfirst
        cases hfirst with
        | some hxy => exact ⟨y, ys, hxy, fun i => h (i + 1), rfl⟩
  · rintro ⟨y, ys', hxy, hrest, rfl⟩ i
    cases i with
    | zero => exact .some hxy
    | succ i => exact hrest i

/-- If values are replaced by related ones, and those under unknown keys not at all, then the slots
that are filled are alike. -/
theorem fill_alike {parts : List (String × Data × Data)}
    (hknown : ∀ p ∈ parts, ∀ i, names.idxOf? p.1 = some i → R i p.2.1 p.2.2)
    (hother : ∀ p ∈ parts, p.1 ∉ names → p.2.2 = p.2.1) (hslots : Alike R xs ys)
    (h : fill how names room (parts.map fun p => (.text p.1, p.2.1)) xs = some slots) :
    ∃ slots', fill how names room (parts.map fun p => (.text p.1, p.2.2)) ys = some slots' ∧
      Alike R slots slots' := by
  induction parts generalizing xs ys with
  | nil =>
      cases h
      exact ⟨ys, rfl, hslots⟩
  | cons p parts ih =>
      rw [List.forall_mem_cons] at hknown hother
      rw [List.map_cons, fill_cons, Option.bind_eq_some_iff] at h
      obtain ⟨next, hplace, hrest⟩ := h
      obtain ⟨next', hplace', halike⟩ : ∃ next',
          place how names room ys (.text p.1, p.2.2) = some next' ∧ Alike R next next' := by
        rw [place, position?_text] at hplace ⊢
        cases hidx : names.idxOf? p.1 with
        | none =>
            rw [hidx] at hplace
            dsimp only at hplace ⊢
            rw [hother.1 (List.idxOf?_eq_none_iff.mp hidx)]
            split_ifs at hplace ⊢
            cases hplace
            exact ⟨ys, rfl, hslots⟩
        | some i =>
            rw [hidx] at hplace
            dsimp only [put] at hplace ⊢
            rw [← hslots.isFree_eq]
            split_ifs at hplace ⊢
            cases hplace
            exact ⟨_, rfl, hslots.set (hknown.1 i hidx)⟩
      rw [List.map_cons, fill_cons, hplace', Option.bind_some]
      exact ih hknown.2 hother.2 halike hrest

end

/-! ## Lists and member tables -/

variable {α β : Type}

theorem mapM_of_forall₂ {read : α → Option β} {as : List α} {bs : List β}
    (h : List.Forall₂ (fun b a => read a = some b) bs as) : as.mapM read = some bs := by
  induction h with
  | nil => rfl
  | cons hread _ ih => simp [hread, ih]

/-- Items in another order are read as the same results in another order. -/
theorem exists_mapM_of_perm {read : α → Option β} {as as' : List α} (hperm : as'.Perm as)
    {bs : List β} (h : as.mapM read = some bs) :
    ∃ bs', as'.mapM read = some bs' ∧ bs'.Perm bs := by
  induction hperm generalizing bs with
  | nil => exact ⟨bs, h, List.Perm.refl bs⟩
  | cons a _ ih =>
      simp only [List.mapM_cons, Option.bind_eq_bind, Option.bind_eq_some_iff, Option.pure_def,
        Option.some.injEq] at h
      obtain ⟨b, hb, rest, hrest, rfl⟩ := h
      obtain ⟨rest', hrest', hperm⟩ := ih hrest
      exact ⟨b :: rest', by simp [hb, hrest'], hperm.cons b⟩
  | swap a a' as =>
      simp only [List.mapM_cons, Option.bind_eq_bind, Option.bind_eq_some_iff, Option.pure_def,
        Option.some.injEq] at h
      obtain ⟨b, hb, _, ⟨b', hb', rest, hrest, rfl⟩, rfl⟩ := h
      exact ⟨b' :: b :: rest, by simp [hb, hb', hrest], List.Perm.swap b b' rest⟩
  | trans _ _ ih ih' =>
      obtain ⟨bs', hbs', hperm'⟩ := ih' h
      obtain ⟨bs'', hbs'', hperm''⟩ := ih hbs'
      exact ⟨bs'', hbs'', hperm''.trans hperm'⟩

theorem listOf?_of_forall₂ {how : Reading} {room : ℕ} (hroom : 0 < room) {read : Data → Option α}
    {items : List Data} {as : List α} (h : List.Forall₂ (fun a d => read d = some a) as items) :
    listOf? how room read (.list items) = some as := by
  have hlist : list? how room (.list items) = some items := by
    rw [list?, if_neg (by omega)]
  rw [listOf?, hlist]
  exact mapM_of_forall₂ h

/-- A table in ascending order is read from its entries in any order. -/
theorem tableOf?_perm {room : ℕ} (hroom : 0 < room) {value : Data → Option α} {table : Table α}
    (htable : table.Ascending) {fields entries : List (String × Data)} (hperm : entries.Perm fields)
    (h : List.Forall₂ (fun m f => f.1 = m.1 ∧ value f.2 = some m.2) table fields) :
    tableOf? room value (object entries) = some table := by
  have hfields : (fields.map fun f => (Data.text f.1, f.2)).mapM (entryOf? value) = some table := by
    apply mapM_of_forall₂
    rw [List.forall₂_map_right_iff]
    refine h.imp fun m f hf => ?_
    simp [entryOf?, text?, hf.1, hf.2]
  obtain ⟨read, hread, hsame⟩ :=
    exists_mapM_of_perm (hperm.map fun f => (Data.text f.1, f.2)) hfields
  have hentries : table? room (object entries) = some (entries.map fun f => (.text f.1, f.2)) := by
    rw [object, table?, if_neg (by omega)]
  simp only [tableOf?, hentries, Option.bind_eq_bind, Option.bind_some, hread, Option.pure_def]
  rw [Table.ofList_of_perm htable hsame]

end Data
end CompletionDb
