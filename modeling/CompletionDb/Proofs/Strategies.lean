import CompletionDb.Proofs.ExtractedRecords
import CompletionDb.Proofs.ExtractionByPath
import CompletionDb.Proofs.MergeReport

/-!
# Records of the two strategies

A resolver decides what is recorded of a callable and of an accessor, and nothing else: with any two
resolvers, entries of the same kind stand at the same paths. So a record that was made from doc
texts can be merged with one that was made from declarations of the same snapshot, and no kinds are
in conflict. Doc texts say nothing about accessors. The type that the first record has for every
property is the placeholder that the merge takes for an unknown type, whatever the settings choose
for it, and the merged record has the declared types again.
-/
namespace CompletionDb

namespace Extraction
open Snapshot

/-! ## Two resolvers -/

/-- Entries that two resolvers give for one object. The last case is the constructor of the root
object, for which no resolver is asked. -/
inductive Paired (s : Snapshot) (r r' : Resolver) : Entry → Entry → Prop
  | function (o : Id) : Paired s r r' (.function (r.callable s o)) (.function (r'.callable s o))
  | method (o : Id) : Paired s r r' (.method (r.callable s o)) (.method (r'.callable s o))
  | property (o : Id) : Paired s r r' (.property (r.property s o)) (.property (r'.property s o))
  | data (o : Id) : Paired s r r' (.data (datum s o)) (.data (datum s o))
  | type (info : TypeInfo) (members members' : Table Entry) :
      Paired s r r' (.type info members) (.type info members')
  | typeRef (o : Id) : Paired s r r' (.typeRef (s.typeName o)) (.typeRef (s.typeName o))
  | fixed (f : Callable) : Paired s r r' (.function f) (.function f)

section
variable {s : Snapshot} {c : Settings} {r r' : Resolver} {before : List Id} {hidden : Bool} {o : Id}

theorem Paired.kind_eq {e e' : Entry} (h : Paired s r r' e e') : e.kind = e'.kind := by
  cases h <;> rfl

theorem paired_entryAfter :
    Paired s r r' (entryAfter s c r before hidden o) (entryAfter s c r' before hidden o) := by
  rw [entryAfter, entryAfter, entryIn.eq_def, entryIn.eq_def]
  dsimp only
  split_ifs
  · exact .function o
  · exact .typeRef o
  · cases c.maxTypeDepth - before.length with
    | zero => exact .typeRef o
    | succ room => exact .type _ _ _
  · exact .method o
  · exact .property o
  · exact .data o

/-- Two resolvers give entries for the same paths, and for one object at each. -/
theorem paired_at? (path : List String) :
    Option.Rel (Paired s r r') ((entryAfter s c r before hidden o).at? path)
      ((entryAfter s c r' before hidden o).at? path) := by
  induction path generalizing before hidden o with
  | nil => exact .some paired_entryAfter
  | cons name path ih =>
      by_cases hexp : s.Expanded c.maxTypeDepth before o
      · cases hnext : (s.members o).find? name with
        | none =>
            rw [entryAfter_of_expanded hexp, entryAfter_of_expanded hexp, Entry.at?_cons,
              Entry.at?_cons, Entry.members, Entry.members, find?_memberEntries,
              find?_memberEntries, hnext]
            exact .none
        | some next =>
            rw [at?_step hexp hnext, at?_step hexp hnext]
            split_ifs
            · cases path with
              | nil => exact .some (.fixed _)
              | cons => exact .none
            · exact ih
      · rw [Entry.at?_cons, Entry.at?_cons, members_of_not_expanded hexp,
          members_of_not_expanded hexp]
        exact .none

/-- Two tables have entries of the same objects under the same names. -/
def PairedTables (s : Snapshot) (c : Settings) (r r' : Resolver) (known fresh : Table Entry) :
    Prop :=
  ∀ name, Option.Rel (fun e e' => ∃ hidden o,
    e = entryBy s c r hidden o ∧ e' = entryBy s c r' hidden o) (known.find? name) (fresh.find? name)

theorem PairedTables.at? {known fresh : Record}
    (h : PairedTables s c r r' known.members fresh.members) (path : List String) :
    Option.Rel (Paired s r r') (known.at? path) (fresh.at? path) := by
  cases path with
  | nil => exact .none
  | cons name path =>
      have hname := h name
      rw [Record.at?_cons, Record.at?_cons]
      generalize known.members.find? name = e, fresh.members.find? name = e' at hname ⊢
      cases hname with
      | none => exact .none
      | some hpair =>
          rcases hpair with ⟨hidden, o, rfl, rfl⟩
          change Option.Rel (Paired s r r') ((entryAfter s c r [] hidden o).at? path)
            ((entryAfter s c r' [] hidden o).at? path)
          exact paired_at? path

end

/-! ## Merging two records of one snapshot -/

/-- What a merge makes of a fresh record and of one that is known from before: the two have the same
skeleton, each property gets the known type, and each callable has the overloads of the fresh record
where that has any. -/
structure Recovers (placeholder : TypeName) (known fresh : Record) : Prop where
  kinds : ∀ path, (known.at? path).map Entry.kind = (fresh.at? path).map Entry.kind
  conflicts : (Merge.report placeholder (some known) fresh).conflicts = []
  property : ∀ path a, known.at? path = some (.property a) → ∃ m,
    (Merge.record placeholder (some known) fresh).at? path = some (.property m) ∧ m.type = a.type
  function : ∀ path f, known.at? path = some (.function f) → ∃ g m,
    fresh.at? path = some (.function g) ∧
    (Merge.record placeholder (some known) fresh).at? path = some (.function m) ∧
    m.overloads = if g.overloads ≠ [] then g.overloads else f.overloads
  method : ∀ path f, known.at? path = some (.method f) → ∃ g m,
    fresh.at? path = some (.method g) ∧
    (Merge.record placeholder (some known) fresh).at? path = some (.method m) ∧
    m.overloads = if g.overloads ≠ [] then g.overloads else f.overloads

theorem recovers_of_paired {s : Snapshot} {r r' : Resolver} {placeholder : TypeName}
    (hunknown : ∀ o, r'.accessorType o = placeholder) {known fresh : Record}
    (hfresh : fresh.Ordered)
    (h : ∀ path, Option.Rel (Paired s r r') (known.at? path) (fresh.at? path)) :
    Recovers placeholder known fresh := by
  constructor
  · intro path
    have hpath := h path
    generalize known.at? path = e, fresh.at? path = e' at hpath ⊢
    cases hpath with
    | none => rfl
    | some hpair => rw [Option.map_some, Option.map_some, hpair.kind_eq]
  · apply Merge.conflicts_report_of_kinds placeholder hfresh
    intro path old new hold hnew
    have hpath := h path
    rw [hold, hnew] at hpath
    cases hpath with
    | some hpair => exact hpair.kind_eq
  · intro path a ha
    have hpath := h path
    rw [Merge.at?_record]
    rw [ha] at hpath ⊢
    generalize fresh.at? path = e' at hpath ⊢
    cases hpath with
    | some hpair =>
        cases hpair with
        | property o =>
            refine ⟨_, rfl, ?_⟩
            exact if_pos (hunknown o)
  · intro path f hf
    have hpath := h path
    rw [Merge.at?_record]
    rw [hf] at hpath ⊢
    generalize fresh.at? path = e' at hpath ⊢
    cases hpath with
    | some hpair =>
        cases hpair with
        | function o => exact ⟨_, _, rfl, rfl, (Merge.callableKept_adopt _ _).overloads⟩
        | fixed => exact ⟨_, _, rfl, rfl, (Merge.callableKept_adopt _ _).overloads⟩
  · intro path f hf
    have hpath := h path
    rw [Merge.at?_record]
    rw [hf] at hpath ⊢
    generalize fresh.at? path = e' at hpath ⊢
    cases hpath with
    | some hpair =>
        cases hpair with
        | method o => exact ⟨_, _, rfl, rfl, (Merge.callableKept_adopt _ _).overloads⟩

/-! ## The two strategies -/

end Extraction

/-- Settings with another strategy. -/
def Settings.withStrategy (c : Settings) (strategy : Strategy) : Settings := { c with strategy }

namespace Extraction

section
variable {s : Snapshot} {c : Settings} {known fresh : Record} {strategy strategy' : Strategy}

theorem entryIn_withStrategy (r : Resolver) (room : ℕ) (chain : List TypeName) (hidden : Bool)
    (id : Id) :
    entryIn s (c.withStrategy strategy) r room chain hidden id =
      entryIn s c r room chain hidden id := by
  induction room generalizing chain hidden id with
  | zero => rw [entryIn, entryIn]
  | succ room ih =>
      have hchild : entryIn s (c.withStrategy strategy) r room (s.typeName id :: chain) false =
          entryIn s c r room (s.typeName id :: chain) false := funext fun o => ih _ _ o
      rw [entryIn, entryIn, hchild]
      rfl

theorem entry_withStrategy (hidden : Bool) (id : Id) :
    entry s (c.withStrategy strategy) hidden id =
      entryBy s c (resolver s (c.withStrategy strategy)) hidden id :=
  entryIn_withStrategy _ _ _ hidden id

theorem pairedTables_recordOf (n : Namespace) :
    PairedTables s c (resolver s (c.withStrategy strategy)) (resolver s (c.withStrategy strategy'))
      (recordOf s (c.withStrategy strategy) n).members
      (recordOf s (c.withStrategy strategy') n).members := by
  intro name
  unfold recordOf
  rw [Table.find?_map (fun _ id => entry s (c.withStrategy strategy) false id),
    Table.find?_map (fun _ id => entry s (c.withStrategy strategy') false id)]
  cases n.members.find? name with
  | none => exact .none
  | some id => exact .some ⟨false, id, entry_withStrategy false id, entry_withStrategy false id⟩

theorem pairedTables_withHidden
    (h : PairedTables s c (resolver s (c.withStrategy strategy))
      (resolver s (c.withStrategy strategy')) known.members fresh.members) :
    PairedTables s c (resolver s (c.withStrategy strategy)) (resolver s (c.withStrategy strategy'))
      (withHidden s (c.withStrategy strategy) known).members
      (withHidden s (c.withStrategy strategy') fresh).members := by
  unfold withHidden
  dsimp only
  apply List.foldl_rel h
  intro p _ members members' hmembers name
  rw [Table.find?_insert, Table.find?_insert]
  split_ifs
  · exact .some ⟨true, p.2, entry_withStrategy true p.2, entry_withStrategy true p.2⟩
  · exact hmembers name

end

/-- A run on doc texts recovers what a run on declarations knew of a module: merged with the record
of that run, its record keeps the skeleton, has all declared types of properties and lacks
overloads only where both lack them. So for the builtin module and for any other one. -/
theorem docText_recovers_declared {d : Data} {s : Snapshot} (hload : Snapshot.ofDocument d = .ok s)
    (c : Settings) {module : String} (hmodule : (s.modules.find? module).isSome) :
    (∃ known fresh, record? s (c.withStrategy .declared) module = some known ∧
      record? s (c.withStrategy .docText) module = some fresh ∧
      Recovers c.placeholder known fresh) ∧
    ∃ known fresh, builtinRecord? s (c.withStrategy .declared) module = some known ∧
      builtinRecord? s (c.withStrategy .docText) module = some fresh ∧
      Recovers c.placeholder known fresh := by
  have hs := Snapshot.ordered_of_ofDocument hload
  have hunknown : ∀ o, (resolver s (c.withStrategy .docText)).accessorType o = c.placeholder :=
    fun _ => rfl
  rcases Option.isSome_iff_exists.mp hmodule with ⟨n, hn⟩
  have hrecord : ∀ strategy, record? s (c.withStrategy strategy) module =
      some (recordOf s (c.withStrategy strategy) n) := by
    intro strategy
    rw [record?, hn, Option.map_some]
  have hbuiltin : ∀ strategy, builtinRecord? s (c.withStrategy strategy) module =
      some (withHidden s (c.withStrategy strategy) (recordOf s (c.withStrategy strategy) n)) := by
    intro strategy
    rw [builtinRecord?, hrecord, Option.map_some]
  have hregular := regular_record? hs (hrecord .docText)
  have htables : PairedTables s c (resolver s (c.withStrategy .declared))
      (resolver s (c.withStrategy .docText)) (recordOf s (c.withStrategy .declared) n).members
      (recordOf s (c.withStrategy .docText) n).members := pairedTables_recordOf n
  constructor
  · refine ⟨_, _, hrecord .declared, hrecord .docText, ?_⟩
    exact recovers_of_paired hunknown hregular.ordered htables.at?
  · refine ⟨_, _, hbuiltin .declared, hbuiltin .docText, ?_⟩
    exact recovers_of_paired hunknown (regular_withHidden hs hregular).ordered
      (pairedTables_withHidden htables).at?

/-- A snapshot document with a module that has a function, which declares how it is called and has
no doc text, and a class with an accessor of a declared type. -/
def accessorDocument : Data :=
  .object [
    ("well_known", .object (["root_object", "function", "builtin_function", "builtin_method",
      "generator", "none", "ellipsis"].map (·, .text "o"))),
    ("modules", .object [("m", .object [("members",
      .object [("C", .text "o"), ("f", .text "f")])])]),
    ("objects", .object [
      ("a", .object [("category", .text "getset_descriptor"), ("descriptor_type", .text "o")]),
      ("f", .object [("category", .text "builtin_function"), ("signatures", .list [
        .object [("params", .list []), ("ret_type", .list [.text "m", .text "C"])]])]),
      ("o", .object [("category", .text "class"), ("module", .text "m"), ("name", .text "C"),
        ("members", .object [("x", .text "a")])])])]

theorem docText_recovers_declared_accessor :
    ∃ s, Snapshot.ofDocument accessorDocument = .ok s ∧ (s.modules.find? "m").isSome ∧
      ∃ known fresh, record? s (Settings.withStrategy {} .declared) "m" = some known ∧
        record? s (Settings.withStrategy {} .docText) "m" = some fresh ∧
        Recovers (Settings.placeholder {}) known fresh := by
  have hfound : ((Snapshot.ofDocument accessorDocument).toOption.bind
      (·.modules.find? "m")).isSome := by decide +kernel
  cases hload : Snapshot.ofDocument accessorDocument with
  | error e =>
      rw [hload] at hfound
      cases hfound
  | ok s =>
      rw [hload] at hfound
      exact ⟨s, rfl, hfound, (docText_recovers_declared hload {} hfound).1⟩

end Extraction
end CompletionDb
