import Mathlib.Data.List.Nodup
import CompletionDb.Data.Shape
import CompletionDb.Proofs.PackRoundTrip
import CompletionDb.Proofs.Tables

/-!
# Shapes read back

Lemmas on lists, tables and structures of the form in which they are written, for either format and
for values that were held. A structure is a table whose keys are texts. Reading it gives, for each
field name, the value under that key, if no known key is repeated and the values under unknown keys
may be skipped: the order of the keys does not matter. The three measures of a document are taken
apart here in the same way, one field at a time.
-/
namespace CompletionDb

namespace Data
variable {α : Type}

/-! ## Measures of lists, tables and structures -/

theorem levels_list_le {items : List Data} {room : ℕ} :
    (list items).levels ≤ room ↔ 0 < room ∧ ∀ d ∈ items, d.levels ≤ room - 1 := by
  have hitems : ∀ n, levelsList items ≤ n ↔ ∀ d ∈ items, d.levels ≤ n := by
    intro n
    induction items with
    | nil => simp [levelsList]
    | cons d ds ih => simp [levelsList, ih]
  rw [levels, ← hitems]
  omega

theorem levels_object_le {fields : List (String × Data)} {room : ℕ} :
    (object fields).levels ≤ room ↔ 0 < room ∧ ∀ f ∈ fields, f.2.levels ≤ room - 1 := by
  have hfields : ∀ n, levelsTable (fields.map fun f => (.text f.1, f.2)) ≤ n ↔
      ∀ f ∈ fields, f.2.levels ≤ n := by
    intro n
    induction fields with
    | nil => simp [levelsTable]
    | cons f fs ih => simp [levelsTable, levels, ih]
  rw [object, levels, ← hfields]
  omega

@[simp] theorem isNative_list {items : List Data} :
    (list items).isNative ↔ ∀ d ∈ items, d.isNative := by
  rw [isNative]
  induction items with
  | nil => simp [isNativeList]
  | cons d ds ih => simp [isNativeList, ih]

@[simp] theorem isNative_object {fields : List (String × Data)} :
    (object fields).isNative ↔ ∀ f ∈ fields, f.2.isNative := by
  rw [object, isNative]
  induction fields with
  | nil => simp [isNativeTable]
  | cons f fs ih => simp [isNativeTable, isNative, ih]

/-! ## Items read one by one -/

/-- Every item is read, and every result is read from an item. -/
theorem read_of_mapM {β : Type} {read : α → Option β} {items : List α} {results : List β}
    (h : items.mapM read = some results) :
    (∀ a ∈ items, ∃ b, read a = some b) ∧ ∀ b ∈ results, ∃ a ∈ items, read a = some b := by
  induction items generalizing results with
  | nil =>
      cases h
      exact ⟨nofun, nofun⟩
  | cons first items ih =>
      simp only [List.mapM_cons, Option.bind_eq_bind, Option.bind_eq_some_iff, Option.pure_def,
        Option.some.injEq] at h
      rcases h with ⟨b, hb, rest, hrest, rfl⟩
      rcases ih hrest with ⟨hitems, hresults⟩
      constructor
      · rw [List.forall_mem_cons]
        exact ⟨⟨b, hb⟩, hitems⟩
      · rw [List.forall_mem_cons]
        refine ⟨⟨first, List.mem_cons_self, hb⟩, ?_⟩
        intro c hc
        rcases hresults c hc with ⟨a, ha, hread⟩
        exact ⟨a, List.mem_cons_of_mem first ha, hread⟩

/-! ## Fields -/

@[simp] theorem position?_text (how : Reading) (names : List String) (key : String) :
    position? how names (.text key) = some (names.idxOf? key) := rfl

theorem lookup_snoc (seen : List (String × α)) (key name : String) (value : α) :
    (seen ++ [(key, value)]).lookup name =
      (seen.lookup name).or (if name = key then some value else none) := by
  rw [List.lookup_append, Table.lookup_cons, List.lookup_nil]

/-- The slots hold what was seen so far, name by name; `seen` is that invariant. A known key is not
seen before, so its slot is free. -/
theorem fill_object {how : Reading} {names : List String} {room : ℕ} (hnames : names.Nodup)
    {seen fields : List (String × Data)}
    (hkeys : (((seen ++ fields).map Prod.fst).filter (· ∈ names)).Nodup)
    (hother : ∀ f ∈ fields, f.1 ∉ names → f.2.ignorable how room) :
    fill how names room (fields.map fun f => (.text f.1, f.2)) (names.map (seen.lookup ·)) =
      some (names.map ((seen ++ fields).lookup ·)) := by
  induction fields generalizing seen with
  | nil => simp [fill]
  | cons f fs ih =>
      obtain ⟨key, value⟩ := f
      have hnext := @ih (seen ++ [(key, value)]) (by simpa using hkeys)
        (fun f hf => hother f (List.mem_cons_of_mem _ hf))
      rw [List.append_assoc, List.singleton_append] at hnext
      simp only [List.map_cons, fill, position?_text]
      by_cases hmem : key ∈ names
      -- A known key: its slot is still free, and no other slot changes.
      · obtain ⟨i, hi⟩ := Option.isSome_iff_exists.mp (List.isSome_idxOf?.mpr hmem)
        obtain ⟨hlt, hat, -⟩ := List.idxOf?_eq_some_iff.mp hi
        have hfree : seen.lookup key = none := by
          rw [List.lookup_eq_none_iff]
          intro p hp
          have hne : key ≠ p.1 := by
            rintro rfl
            simp only [List.map_append, List.map_cons, List.filter_append] at hkeys
            rw [List.nodup_append] at hkeys
            exact hkeys.2.2 p.1 (by simp [hmem, List.mem_map_of_mem hp]) p.1 (by simp [hmem]) rfl
          simpa using hne
        have hslot : (names.map (seen.lookup ·))[i]? = some none := by
          simp [List.getElem?_eq_getElem hlt, hat, hfree]
        have hset : (names.map (seen.lookup ·)).set i (some value) =
            names.map ((seen ++ [(key, value)]).lookup ·) := by
          apply List.ext_getElem (by simp)
          intro j hj hj'
          have hjn : j < names.length := by simpa using hj'
          rw [List.getElem_set, List.getElem_map, List.getElem_map, lookup_snoc]
          by_cases hji : i = j
          · subst hji
            simp [hat, hfree]
          · have hne : names[j] ≠ key := by
              rw [← hat]
              exact fun h => hji ((List.Nodup.getElem_inj_iff hnames).mp h).symm
            simp [hji, hne]
        simp only [hi, hslot, hset]
        simpa using hnext
      · have hnone : names.idxOf? key = none := List.idxOf?_eq_none_iff.mpr hmem
        have hsame : names.map ((seen ++ [(key, value)]).lookup ·) = names.map (seen.lookup ·) := by
          apply List.map_congr_left
          intro n hn
          have hne : n ≠ key := fun h => hmem (h ▸ hn)
          simp [lookup_snoc, hne]
        rw [hsame] at hnext
        simp only [hnone, hother (key, value) (by simp) hmem, if_true]
        exact hnext

/-- A structure is read field by field, in any order of its keys. -/
theorem fields?_object {how : Reading} {names : List String} {room : ℕ} (hroom : 0 < room)
    (hnames : names.Nodup) {fields : List (String × Data)}
    (hkeys : ((fields.map Prod.fst).filter (· ∈ names)).Nodup)
    (hother : ∀ f ∈ fields, f.1 ∉ names → f.2.ignorable how (room - 1)) :
    fields? how names room (object fields) = some (names.map (fields.lookup ·)) := by
  have hslots : List.replicate names.length (none : Option Data) =
      names.map (([] : List (String × Data)).lookup ·) := by
    simp [List.map_const']
  have hfill := @fill_object how names (room - 1) hnames [] fields (by simpa using hkeys) hother
  rw [object, fields?, if_neg (by omega), hslots, hfill]
  simp

/-- The written form of a structure: some of its fields, in order. -/
theorem fields?_sublist {how : Reading} {names : List String} {room : ℕ} (hroom : 0 < room)
    (hnames : names.Nodup) {fields : List (String × Data)}
    (hsub : (fields.map Prod.fst).Sublist names) :
    fields? how names room (object fields) = some (names.map (fields.lookup ·)) := by
  apply fields?_object hroom hnames
  · exact (hsub.nodup hnames).filter _
  · intro f hf hnot
    exact absurd (hsub.subset (List.mem_map_of_mem hf)) hnot

@[simp] theorem lookup_optionalField (name key : String) (print : α → Data) (o : Option α) :
    (optionalField name print o).lookup key = if key = name then o.map print else none := by
  cases o with
  | none => simp [optionalField]
  | some a =>
      rw [optionalField, Table.lookup_cons, List.lookup_nil, Option.map_some]

theorem keys_optionalField (name : String) (print : α → Data) (o : Option α) :
    ((optionalField name print o).map Prod.fst).Sublist [name] := by
  cases o with
  | none => exact List.nil_sublist _
  | some a => exact List.Sublist.refl _

theorem forall_mem_optionalField {name : String} {print : α → Data} {o : Option α}
    {P : String × Data → Prop} :
    (∀ f ∈ optionalField name print o, P f) ↔ ∀ a, o = some a → P (name, print a) := by
  cases o with
  | none => simp [optionalField]
  | some a => simp [optionalField]

/-! ## Values -/

@[simp] theorem fieldOr_none (default : α) (read : Data → Option α) :
    fieldOr default read none = some default := rfl

@[simp] theorem fieldOr_some (default : α) (read : Data → Option α) (d : Data) :
    fieldOr default read (some d) = read d := rfl

theorem optional?_map {read : Data → Option α} {print : α → Data} {o : Option α}
    (hnull : ∀ a, print a ≠ .null) (hread : ∀ a, o = some a → read (print a) = some a) :
    optional? read (o.map print) = some o := by
  cases o with
  | none => rfl
  | some a =>
      rw [Option.map_some, optional?.eq_3 _ _ (hnull a), hread a rfl]
      rfl

@[simp] theorem optional?_text (o : Option String) : optional? text? (o.map .text) = some o :=
  optional?_map (by simp) (by simp [text?])

theorem mapM_map_of_read {read : Data → Option α} {print : α → Data} {as : List α}
    (hread : ∀ a ∈ as, read (print a) = some a) : (as.map print).mapM read = some as := by
  induction as with
  | nil => rfl
  | cons a as ih =>
      have hhead := hread a (by simp)
      have htail := ih fun b hb => hread b (by simp [hb])
      simp [hhead, htail]

theorem listOf?_map {how : Reading} {room : ℕ} (hroom : 0 < room) {read : Data → Option α}
    {print : α → Data} {as : List α} (hread : ∀ a ∈ as, read (print a) = some a) :
    listOf? how room read (.list (as.map print)) = some as := by
  have hlist : list? how room (.list (as.map print)) = some (as.map print) := by
    rw [list?, if_neg (by omega)]
  rw [listOf?, hlist]
  exact mapM_map_of_read hread

end Data
end CompletionDb
