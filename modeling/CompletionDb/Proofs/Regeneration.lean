import Mathlib.Order.Bounds.Basic
import CompletionDb.Proofs.MergeByPath

/-!
# Chains of regenerations

A database is generated again and again, each time over the output of the run before. What such a
chain knows at a path is the latest that any of its runs knew there, counted from the first run
since which the path has had an entry of one kind throughout. A run in which the member was missing,
had another kind, or stood below something else than types cuts off all that was recorded before it.

The chain is followed one merge at a time. A field is described by how it is read off an entry and
by its blank value; `Fills` is all that a merge has to satisfy for it.
-/
namespace CompletionDb.Merge
variable (placeholder : TypeName)

/-- The outputs of a chain of runs. The first has no baseline. -/
def regenerated (fresh : ℕ → Record) : ℕ → Record
  | 0 => fresh 0
  | n + 1 => record placeholder (some (regenerated fresh n)) (fresh (n + 1))

/-- A record has an entry of a kind at a path, below types. -/
def Present (path : List String) (kind : Kind) (r : Record) : Prop :=
  r.TypesAbove path ∧ ∃ e, r.at? path = some e ∧ e.kind = kind

/-- The runs from `j` to `n` all have an entry of the kind at the path. -/
def SteadySince (fresh : ℕ → Record) (path : List String) (kind : Kind) (n j : ℕ) : Prop :=
  ∀ i, j ≤ i → i ≤ n → Present path kind (fresh i)

/-- The value is the last of those of runs `j` to `n` that is not blank, or blank if all are. -/
def Latest {α : Type} (values : ℕ → α) (blank : α) (j n : ℕ) (value : α) : Prop :=
  (∃ i, IsGreatest {i | j ≤ i ∧ i ≤ n ∧ values i ≠ blank} i ∧ value = values i) ∨
    ((∀ i, j ≤ i → i ≤ n → values i = blank) ∧ value = blank)

/-! ## Latest values -/

section Latest
variable {α : Type} {values : ℕ → α} {blank value : α} {j n : ℕ}

theorem Latest.single : Latest values blank j j (values j) := by
  by_cases h : values j = blank
  · right
    refine ⟨?_, h⟩
    intro i hj hi
    rw [show i = j by omega, h]
  · left
    exact ⟨j, ⟨⟨le_rfl, le_rfl, h⟩, fun i hi => hi.2.1⟩, rfl⟩

theorem Latest.told (hj : j ≤ n + 1) (h : values (n + 1) ≠ blank) :
    Latest values blank j (n + 1) (values (n + 1)) :=
  .inl ⟨n + 1, ⟨⟨hj, le_rfl, h⟩, fun _ hi => hi.2.1⟩, rfl⟩

theorem Latest.untold (hl : Latest values blank j n value) (h : values (n + 1) = blank) :
    Latest values blank j (n + 1) value := by
  rcases hl with ⟨i, ⟨⟨hj, hi, hne⟩, hmax⟩, rfl⟩ | ⟨hall, rfl⟩
  · left
    refine ⟨i, ⟨⟨hj, by omega, hne⟩, ?_⟩, rfl⟩
    rintro k ⟨hjk, hk, hkne⟩
    have hkn : k ≠ n + 1 := fun e => hkne (e ▸ h)
    exact hmax ⟨hjk, by omega, hkne⟩
  · right
    refine ⟨?_, rfl⟩
    intro i hj hi
    by_cases hin : i = n + 1
    · rw [hin, h]
    · exact hall i hj (by omega)

end Latest

/-! ## One run -/

theorem at?_regenerated_succ (fresh : ℕ → Record) (n : ℕ) (path : List String) :
    (regenerated placeholder fresh (n + 1)).at? path =
      ((fresh (n + 1)).at? path).map
        (withBase placeholder ((regenerated placeholder fresh n).at? path)) :=
  at?_record placeholder _ _ path

/-- Each output has the kinds of the run that made it. -/
theorem kind_at?_regenerated (fresh : ℕ → Record) (n : ℕ) (path : List String) :
    ((regenerated placeholder fresh n).at? path).map Entry.kind =
      ((fresh n).at? path).map Entry.kind := by
  cases n with
  | zero => rfl
  | succ n =>
      rw [at?_regenerated_succ, Option.map_map]
      congr 1
      funext e
      exact kind_withBase placeholder _ e

theorem present_iff {path : List String} {kind : Kind} {r : Record} :
    Present path kind r ↔ (r.at? path).map Entry.kind = some kind := by
  rw [Option.map_eq_some_iff]
  constructor
  · exact fun h => h.2
  · rintro ⟨e, he, hk⟩
    exact ⟨Record.typesAbove_of_at? he, e, he, hk⟩

/-- At the first run of a steady stretch nothing is taken over: the output before it has no entry of
that kind at the path. -/
theorem at?_regenerated_first {fresh : ℕ → Record} {path : List String} {kind : Kind} {n j : ℕ}
    (hj : IsLeast {j | SteadySince fresh path kind n j} j) (hjn : j ≤ n) :
    (regenerated placeholder fresh j).at? path = (fresh j).at? path := by
  cases j with
  | zero => rfl
  | succ i =>
      obtain ⟨-, e, he, hkind⟩ := hj.1 (i + 1) le_rfl hjn
      -- Otherwise the stretch could begin one run earlier.
      have habsent : ¬ Present path kind (fresh i) := by
        intro hi
        have hsteady : SteadySince fresh path kind n i := by
          intro k hik hkn
          by_cases hk : k = i
          · exact hk ▸ hi
          · exact hj.1 k (by omega) hkn
        have hle := hj.2 hsteady
        omega
      rw [present_iff, ← kind_at?_regenerated placeholder] at habsent
      rw [at?_regenerated_succ, he, Option.map_some]
      cases hold : (regenerated placeholder fresh i).at? path with
      | none => rfl
      | some old =>
          rw [hold, Option.map_some] at habsent
          have hne : old.kind ≠ e.kind := fun h => habsent (by rw [h, hkind])
          simp [entry_of_kind_ne placeholder hne]

/-! ## A field along a chain -/

/-- A merge takes a field from the older entry exactly where the fresh entry has it blank. -/
def Fills {α : Type} (read : Entry → α) (blank : α) : Prop :=
  ∀ old fresh : Entry, old.kind = fresh.kind →
    read (entry placeholder old fresh) = read fresh ∧ read fresh ≠ blank ∨
      read (entry placeholder old fresh) = read old ∧ read fresh = blank

/-- A field as a record has it at a path, blank where there is no entry. -/
def fieldAt {α : Type} (read : Entry → α) (blank : α) (path : List String) (r : Record) : α :=
  (r.at? path).elim blank read

/-- Along a steady stretch the output holds the latest value of a field. The induction is on the
runs of the stretch. -/
theorem latest_regenerated {α : Type} {read : Entry → α} {blank : α}
    (hfills : Fills placeholder read blank) {fresh : ℕ → Record} {path : List String} {kind : Kind}
    {n j : ℕ} (hj : IsLeast {j | SteadySince fresh path kind n j} j) {k : ℕ}
    (hjk : j ≤ k) (hkn : k ≤ n) :
    ∃ e, (regenerated placeholder fresh k).at? path = some e ∧ e.kind = kind ∧
      Latest (fun i => fieldAt read blank path (fresh i)) blank j k (read e) := by
  induction k, hjk using Nat.le_induction with
  | base =>
      obtain ⟨-, e, he, hkind⟩ := hj.1 j le_rfl hkn
      have hvalue : fieldAt read blank path (fresh j) = read e := by rw [fieldAt, he]; rfl
      refine ⟨e, ?_, hkind, ?_⟩
      · rw [at?_regenerated_first placeholder hj hkn, he]
      · rw [← hvalue]
        exact Latest.single
  | succ k hjk ih =>
      obtain ⟨old, hold, hkind, hlatest⟩ := ih (by omega)
      obtain ⟨-, new, hnew, hkind'⟩ := hj.1 (k + 1) (by omega) hkn
      have hvalue : fieldAt read blank path (fresh (k + 1)) = read new := by
        rw [fieldAt, hnew]
        rfl
      refine ⟨entry placeholder old new, ?_, ?_, ?_⟩
      · rw [at?_regenerated_succ, hold, hnew]
        rfl
      · rw [kind_entry, hkind']
      · rcases hfills old new (hkind.trans hkind'.symm) with ⟨hread, hne⟩ | ⟨hread, hblank⟩
        · rw [hread, ← hvalue]
          exact Latest.told (by omega) (hvalue ▸ hne)
        · rw [hread]
          exact hlatest.untold (hvalue.trans hblank)

/-- Within a steady stretch a chain may as well have begun with its first run. -/
theorem at?_regenerated_shift {fresh : ℕ → Record} {path : List String} {kind : Kind} {n j : ℕ}
    (hj : IsLeast {j | SteadySince fresh path kind n j} j) {k : ℕ} (hk : j + k ≤ n) :
    (regenerated placeholder fresh (j + k)).at? path =
      (regenerated placeholder (fun i => fresh (j + i)) k).at? path := by
  induction k with
  | zero => exact at?_regenerated_first placeholder hj hk
  | succ k ih =>
      rw [← Nat.add_assoc, at?_regenerated_succ, at?_regenerated_succ, ih (by omega)]
      rfl

/-! ## Overloads, doc texts and types -/

/-- A field of callables that is kept where it is told is filled in at every path. -/
theorem fills_callable {α : Type} {field : Callable → α} {blank : α}
    (hadopt : ∀ old f : Callable, field (adopt old f) = field f ∧ field f ≠ blank ∨
      field (adopt old f) = field old ∧ field f = blank) :
    Fills placeholder (fun e => e.callable?.map field) (some blank) := by
  have hcallable : ∀ old f : Callable,
      some (field (adopt old f)) = some (field f) ∧ some (field f) ≠ some blank ∨
      some (field (adopt old f)) = some (field old) ∧ some (field f) = some blank := by
    intro old f
    simpa only [ne_eq, Option.some.injEq] using hadopt old f
  intro old fresh h
  cases old <;> cases fresh <;> cases h
  case function.function old f => exact hcallable old f
  case method.method old f => exact hcallable old f
  all_goals exact .inl ⟨rfl, by simp [Entry.callable?]⟩

theorem fills_overloads : Fills placeholder Entry.overloads? (some []) := by
  apply fills_callable
  intro old f
  cases h : f.overloads with
  | nil => simp [adopt, h]
  | cons o os => simp [adopt, h]

theorem fills_doc : Fills placeholder Entry.callableDoc? (some none) := by
  apply fills_callable
  intro old f
  cases h : f.doc with
  | none => simp [adopt, h]
  | some d => simp [adopt, h]

theorem fills_type : Fills placeholder Entry.valueType? (some placeholder) := by
  have hattribute : ∀ old a : Attribute,
      some (narrow placeholder old a).type = some a.type ∧ some a.type ≠ some placeholder ∨
      some (narrow placeholder old a).type = some old.type ∧ some a.type = some placeholder := by
    intro old a
    by_cases h : a.type = placeholder
    · simp [narrow, h]
    · simp [narrow, h]
  intro old fresh h
  cases old <;> cases fresh <;> cases h
  case property.property old a => exact hattribute old a
  case data.data old a => exact hattribute old a
  all_goals exact .inl ⟨rfl, by simp [Entry.valueType?, Entry.attribute?]⟩

/-- What a chain of regenerations knows at a path of its last run. With `j` the first run since
which the path has had an entry of its present kind, the output has the latest overloads and doc
text of a callable, and the latest type other than the placeholder of a property or datum, that any
run from `j` on had there. Runs before `j` play no part: the chain from `j` on gives the same entry.
-/
theorem regenerated_at_path (fresh : ℕ → Record) (n : ℕ) (path : List String) (last : Entry)
    (hlast : (fresh n).at? path = some last) (j : ℕ)
    (hj : IsLeast {j | SteadySince fresh path last.kind n j} j) :
    (last.kind = .function ∨ last.kind = .method →
      ∃ e, (regenerated placeholder fresh n).at? path = some e ∧ e.kind = last.kind ∧
        Latest (fun i => fieldAt Entry.overloads? (some []) path (fresh i)) (some []) j n
          e.overloads? ∧
        Latest (fun i => fieldAt Entry.callableDoc? (some none) path (fresh i)) (some none) j n
          e.callableDoc?) ∧
    (last.kind = .property ∨ last.kind = .data →
      ∃ e, (regenerated placeholder fresh n).at? path = some e ∧ e.kind = last.kind ∧
        Latest (fun i => fieldAt Entry.valueType? (some placeholder) path (fresh i))
          (some placeholder) j n e.valueType?) ∧
    (regenerated placeholder fresh n).at? path =
      (regenerated placeholder (fun i => fresh (j + i)) (n - j)).at? path := by
  have hn : SteadySince fresh path last.kind n n := by
    intro i hni hin
    rw [show i = n by omega]
    exact ⟨Record.typesAbove_of_at? hlast, last, hlast, rfl⟩
  have hjn : j ≤ n := hj.2 hn
  refine ⟨?_, ?_, ?_⟩
  · intro _
    obtain ⟨e, he, hkind, hoverloads⟩ :=
      latest_regenerated placeholder (fills_overloads placeholder) hj hjn le_rfl
    obtain ⟨d, hd, -, hdoc⟩ :=
      latest_regenerated placeholder (fills_doc placeholder) hj hjn le_rfl
    obtain rfl : e = d := Option.some.inj (he.symm.trans hd)
    exact ⟨e, he, hkind, hoverloads, hdoc⟩
  · intro _
    exact latest_regenerated placeholder (fills_type placeholder) hj hjn le_rfl
  · have hshift := at?_regenerated_shift placeholder hj (show j + (n - j) ≤ n by omega)
    rwa [Nat.add_sub_cancel' hjn] at hshift

/-- Four runs that know a method. The second does not find its type. -/
def interruptedRuns : ℕ → Record
  | 0 => methodRecord { overloads := [⟨[], ⟨"m", "A"⟩⟩] }
  | 1 => {}
  | 2 => methodRecord { doc := some "f()" }
  | _ => methodRecord {}

theorem interruptedRuns_steady :
    IsLeast {j | SteadySince interruptedRuns ["A", "f"] .method 3 j} 2 := by
  constructor
  · intro i h2 h3
    rw [present_iff]
    obtain rfl | rfl : i = 2 ∨ i = 3 := by omega
    · rfl
    · rfl
  · intro j hj
    by_contra hlt
    obtain ⟨-, e, he, -⟩ := hj 1 (by omega) (by omega)
    exact Option.some_ne_none e he.symm

theorem regenerated_at_path_interrupted :
    IsLeast {j | SteadySince interruptedRuns ["A", "f"] .method 3 j} 2 ∧
      ∃ e, (regenerated ⟨"m", "object"⟩ interruptedRuns 3).at? ["A", "f"] = some e ∧
        e.kind = .method ∧
        Latest (fun i => fieldAt Entry.overloads? (some []) ["A", "f"] (interruptedRuns i))
          (some []) 2 3 e.overloads? ∧
        Latest (fun i => fieldAt Entry.callableDoc? (some none) ["A", "f"] (interruptedRuns i))
          (some none) 2 3 e.callableDoc? :=
  ⟨interruptedRuns_steady, (regenerated_at_path ⟨"m", "object"⟩ interruptedRuns 3 ["A", "f"]
    (.method {}) rfl 2 interruptedRuns_steady).1 (.inr rfl)⟩

end CompletionDb.Merge
