import Mathlib.Data.List.Basic
import Mathlib.Data.String.Basic
import CompletionDb.Record.Basic

/-!
# Tables

Look-up in association lists, entry by entry, and tables in ascending order. Such a table is what
`Table.ofList` makes of any entries, and of its own entries it makes the table itself.
-/
namespace CompletionDb.Table
variable {α : Type}

/-! ## Look-up -/

theorem lookup_cons (key name : String) (value : α) (rest : List (String × α)) :
    ((key, value) :: rest).lookup name = if name = key then some value else rest.lookup name := by
  rw [List.lookup_cons]
  by_cases h : name = key
  · simp [h]
  · rw [if_neg h, beq_false_of_ne h]

@[simp] theorem find?_nil (name : String) : find? ([] : Table α) name = none := rfl

@[simp] theorem find?_cons (key name : String) (value : α) (rest : Table α) :
    find? ((key, value) :: rest) name = if name = key then some value else rest.find? name :=
  lookup_cons key name value rest

theorem find?_map {β : Type} (f : String → α → β) (table : Table α) (name : String) :
    find? (table.map fun (key, value) => (key, f key value)) name =
      (table.find? name).map (f name) := by
  induction table with
  | nil => rfl
  | cons entry rest ih =>
      obtain ⟨key, value⟩ := entry
      by_cases h : name = key
      · simp [h]
      · simp [h, ih]

theorem mem_of_find? {table : Table α} {name : String} {value : α}
    (h : table.find? name = some value) : (name, value) ∈ table := by
  induction table with
  | nil => cases h
  | cons entry rest ih =>
      obtain ⟨key, other⟩ := entry
      rw [find?_cons] at h
      split_ifs at h with hkey
      · rw [hkey, Option.some.inj h]
        exact List.mem_cons_self
      · exact List.mem_cons_of_mem _ (ih h)

theorem mem_keys_of_find? {table : Table α} {name : String} {value : α}
    (h : table.find? name = some value) : name ∈ table.keys :=
  List.mem_map_of_mem (mem_of_find? h)

theorem find?_append_of_some {table : Table α} {name : String} {value : α}
    (h : table.find? name = some value) (more : Table α) :
    find? (table ++ more) name = some value := by
  unfold find? at h ⊢
  rw [List.lookup_append, h, Option.some_or]

/-! ## Order -/

theorem find?_of_mem {table : Table α} (h : table.Ascending) {m : String × α}
    (hm : m ∈ table) : table.find? m.1 = some m.2 := by
  induction table with
  | nil => cases hm
  | cons entry rest ih =>
      obtain ⟨key, value⟩ := entry
      rw [find?_cons]
      rcases List.mem_cons.mp hm with rfl | hrest
      · rw [if_pos rfl]
      · have hlt := List.rel_of_pairwise_cons h (List.mem_map_of_mem hrest)
        rw [if_neg (String.ne_of_lt hlt).symm, ih (List.Pairwise.of_cons h) hrest]

theorem ascends_iff {table : Table α} : ascends table = true ↔ table.Ascending := by
  induction table with
  | nil => exact iff_of_true rfl List.Pairwise.nil
  | cons entry rest ih =>
      cases rest with
      | nil => exact iff_of_true rfl (List.pairwise_singleton _ _)
      | cons next rest =>
          rw [ascends, Bool.and_eq_true, decide_eq_true_eq, ih]
          constructor
          · rintro ⟨hlt, hrest⟩
            refine List.pairwise_cons.mpr ⟨?_, hrest⟩
            rintro key (_ | ⟨_, hkey⟩)
            · exact hlt
            · exact lt_trans hlt (List.rel_of_pairwise_cons hrest hkey)
          · intro h
            exact ⟨List.rel_of_pairwise_cons h List.mem_cons_self, List.Pairwise.of_cons h⟩

instance (table : Table α) : Decidable table.Ascending := decidable_of_iff _ ascends_iff

/-- A table in ascending order is the table of its own entries. -/
theorem ofList_of_ascending {table : Table α} (h : table.Ascending) : ofList table = table := by
  rw [ofList, if_pos (ascends_iff.mpr h)]

/-- Only entries of a list come into its table. -/
theorem mem_of_mem_lastOfRuns {table : Table α} {m : String × α} (h : m ∈ lastOfRuns table) :
    m ∈ table := by
  induction table with
  | nil => exact h
  | cons entry rest ih =>
      cases rest with
      | nil => exact h
      | cons next rest =>
          rw [lastOfRuns] at h
          split_ifs at h
          · exact List.mem_cons_of_mem _ (ih h)
          · rcases List.mem_cons.mp h with rfl | h
            · exact List.mem_cons_self
            · exact List.mem_cons_of_mem _ (ih h)

theorem mem_of_mem_ofList {entries : List (String × α)} {m : String × α} (h : m ∈ ofList entries) :
    m ∈ entries := by
  unfold ofList at h
  split_ifs at h
  · exact h
  · exact List.mem_mergeSort.mp (mem_of_mem_lastOfRuns h)

theorem ascending_lastOfRuns {table : Table α} (h : table.Pairwise fun a b => a.1 ≤ b.1) :
    (lastOfRuns table).Ascending := by
  induction table with
  | nil => exact List.Pairwise.nil
  | cons entry rest ih =>
      cases rest with
      | nil => exact List.pairwise_singleton _ _
      | cons next rest =>
          obtain ⟨hfirst, hrest⟩ := List.pairwise_cons.mp h
          rw [lastOfRuns]
          split_ifs with heq
          · exact ih hrest
          · refine List.pairwise_cons.mpr ⟨?_, ih hrest⟩
            rw [List.forall_mem_map]
            intro m hm
            -- What is kept comes from the rest, and its head is larger than the entry already.
            have hlt : entry.1 < next.1 := lt_of_le_of_ne (hfirst next List.mem_cons_self) heq
            rcases List.mem_cons.mp (mem_of_mem_lastOfRuns hm) with rfl | hmem
            · exact hlt
            · exact lt_of_lt_of_le hlt ((List.pairwise_cons.mp hrest).1 m hmem)

theorem ascending_ofList (entries : List (String × α)) : (ofList entries).Ascending := by
  unfold ofList
  split_ifs with h
  · exact ascends_iff.mp h
  · apply ascending_lastOfRuns
    have hsorted : (entries.mergeSort fun a b => a.1 ≤ b.1).Pairwise fun a b =>
        decide (a.1 ≤ b.1) = true := by
      apply List.pairwise_mergeSort
      · intro a b c hab hbc
        rw [decide_eq_true_eq] at *
        exact le_trans hab hbc
      · intro a b
        rw [Bool.or_eq_true, decide_eq_true_eq, decide_eq_true_eq]
        exact le_total _ _
    exact hsorted.imp fun h => of_decide_eq_true h

theorem mem_insert {key : String} {value : α} {table : Table α} {m : String × α}
    (h : m ∈ insert key value table) : m = (key, value) ∨ m ∈ table := by
  induction table with
  | nil => exact .inl (List.mem_singleton.mp h)
  | cons entry rest ih =>
      rw [insert] at h
      split_ifs at h
      · exact List.mem_cons.mp h
      · rcases List.mem_cons.mp h with h | h
        · exact .inl h
        · exact .inr (List.mem_cons_of_mem _ h)
      · rcases List.mem_cons.mp h with rfl | h
        · exact .inr List.mem_cons_self
        · exact (ih h).imp_right (List.mem_cons_of_mem _)

theorem mem_insert_of_ne {key : String} {value : α} {table : Table α} {m : String × α}
    (hm : m ∈ table) (hne : m.1 ≠ key) : m ∈ insert key value table := by
  induction table with
  | nil => cases hm
  | cons entry rest ih =>
      rw [insert]
      split_ifs with hlt heq
      · exact List.mem_cons_of_mem _ hm
      · rcases List.mem_cons.mp hm with rfl | hm
        · exact absurd heq.symm hne
        · exact List.mem_cons_of_mem _ hm
      · rcases List.mem_cons.mp hm with rfl | hm
        · exact List.mem_cons_self
        · exact List.mem_cons_of_mem _ (ih hm)

theorem find?_insert (key name : String) (value : α) (table : Table α) :
    (insert key value table).find? name = if name = key then some value else table.find? name := by
  induction table with
  | nil => simp [insert]
  | cons entry rest ih =>
      rcases entry with ⟨other, old⟩
      rw [insert]
      by_cases hlt : key < other
      · rw [if_pos hlt, find?_cons]
      · rw [if_neg hlt]
        by_cases heq : key = other
        · rw [if_pos heq, find?_cons, find?_cons, ← heq]
          split_ifs <;> rfl
        · rw [if_neg heq, find?_cons, find?_cons, ih]
          by_cases hname : name = key
          · have hother : name ≠ other := fun h => heq (hname.symm.trans h)
            rw [if_neg hother, if_pos hname, if_pos hname]
          · rw [if_neg hname, if_neg hname]

theorem ascending_insert {key : String} {value : α} {table : Table α} (h : table.Ascending) :
    (insert key value table).Ascending := by
  induction table with
  | nil => exact List.pairwise_singleton _ _
  | cons entry rest ih =>
      obtain ⟨hfirst, hrest⟩ := List.pairwise_cons.mp h
      rw [List.forall_mem_map] at hfirst
      rw [insert]
      split_ifs with hlt heq
      · refine List.pairwise_cons.mpr ⟨?_, h⟩
        rw [List.forall_mem_map, List.forall_mem_cons]
        exact ⟨hlt, fun m hm => lt_trans hlt (hfirst m hm)⟩
      · refine List.pairwise_cons.mpr ⟨?_, hrest⟩
        rw [List.forall_mem_map, heq]
        exact hfirst
      · refine List.pairwise_cons.mpr ⟨?_, ih hrest⟩
        rw [List.forall_mem_map]
        intro m hm
        rcases mem_insert hm with rfl | hmem
        · exact lt_of_le_of_ne (not_lt.mp hlt) (Ne.symm heq)
        · exact hfirst m hmem

end CompletionDb.Table
