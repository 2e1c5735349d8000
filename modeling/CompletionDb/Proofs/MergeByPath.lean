import CompletionDb.Merge.Basic
import CompletionDb.Proofs.MemberPath

/-!
# What a merge leaves at every path

Merging commutes with following a path: what stands at a path of the merged record is the merge of
what stands there in the fresh record and in the baseline, and the fresh entry itself where the
baseline has nothing at that path. All that is said below about fields and kinds is read off this
one equation; the recursion of the merge is not opened again.
-/
namespace CompletionDb.Merge
variable (placeholder : TypeName)

/-- A fresh entry over what the baseline has in its place, if anything. -/
def withBase (base : Option Entry) (fresh : Entry) : Entry :=
  match base with
  | some old => entry placeholder old fresh
  | none => fresh

@[simp] theorem withBase_none : withBase placeholder none = id := rfl

@[simp] theorem withBase_some (old fresh : Entry) :
    withBase placeholder (some old) fresh = entry placeholder old fresh := rfl

@[simp] theorem table_cons (base : Table Entry) (name : String) (fresh : Entry)
    (rest : Table Entry) : table placeholder base ((name, fresh) :: rest) =
      (name, withBase placeholder (base.find? name) fresh) :: table placeholder base rest := rfl

theorem find?_table (base fresh : Table Entry) (name : String) :
    Table.find? (table placeholder base fresh) name =
      (fresh.find? name).map (withBase placeholder (base.find? name)) := by
  induction fresh with
  | nil => rfl
  | cons member rest ih =>
      obtain ⟨key, e⟩ := member
      by_cases h : name = key
      · simp [h]
      · simp [h, ih]

@[simp] theorem table_nil_base (fresh : Table Entry) : table placeholder [] fresh = fresh := by
  induction fresh with
  | nil => rfl
  | cons member rest ih =>
      obtain ⟨key, e⟩ := member
      simp [ih]

/-- Whatever the two kinds are: an entry that is no type has no members. -/
@[simp] theorem members_entry (old fresh : Entry) :
    (entry placeholder old fresh).members = table placeholder old.members fresh.members := by
  cases fresh with
  | type info members =>
      cases old with
      | type _ old => rfl
      | _ => exact (table_nil_base placeholder members).symm
  | _ => cases old <;> rfl

/-- Merging commutes with following a path below an entry. -/
theorem at?_entry (path : List String) (old fresh : Entry) :
    (entry placeholder old fresh).at? path =
      (fresh.at? path).map (withBase placeholder (old.at? path)) := by
  induction path generalizing old fresh with
  | nil => rfl
  | cons name path ih =>
      simp only [Entry.at?_cons, members_entry, find?_table]
      cases fresh.members.find? name with
      | none => rfl
      | some e =>
          cases old.members.find? name with
          | none => simp
          | some o => simpa using ih o e

/-- Merging commutes with following a path of a record. -/
theorem at?_record (base fresh : Record) (path : List String) :
    (record placeholder (some base) fresh).at? path =
      (fresh.at? path).map (withBase placeholder (base.at? path)) := by
  cases path with
  | nil => rfl
  | cons name path =>
      simp only [Record.at?_cons, record, find?_table]
      cases fresh.members.find? name with
      | none => rfl
      | some e =>
          cases base.members.find? name with
          | none => simp
          | some o => simpa using at?_entry placeholder path o e

/-! ## Kinds and fields -/

@[simp] theorem kind_entry (old fresh : Entry) :
    (entry placeholder old fresh).kind = fresh.kind := by
  cases old <;> cases fresh <;> rfl

@[simp] theorem kind_withBase (base : Option Entry) (fresh : Entry) :
    (withBase placeholder base fresh).kind = fresh.kind := by
  cases base with
  | none => rfl
  | some old => exact kind_entry placeholder old fresh

/-- In conflict the fresh entry stays, with all that is below it. -/
theorem entry_of_kind_ne {old fresh : Entry} (h : old.kind ≠ fresh.kind) :
    entry placeholder old fresh = fresh := by
  cases old <;> cases fresh <;> first | rfl | exact absurd rfl h

/-- Overloads and doc text from the fresh callable where it has them, flags from it always. -/
structure CallableKept (old fresh merged : Callable) : Prop where
  overloads : merged.overloads = if fresh.overloads ≠ [] then fresh.overloads else old.overloads
  doc : merged.doc = if fresh.doc.isSome then fresh.doc else old.doc
  builtin : merged.builtin = fresh.builtin
  static : merged.static = fresh.static

/-- The type from the fresh attribute unless that is the placeholder, the doc text from it always.
-/
structure AttributeKept (old fresh merged : Attribute) : Prop where
  type : merged.type = if fresh.type = placeholder then old.type else fresh.type
  doc : merged.doc = fresh.doc

/-- What an entry is when a fresh entry has met an older one of its kind, by kind. Of a type only
its own fields are told: its members are entries at longer paths. -/
inductive Kept : (old fresh merged : Entry) → Prop
  | function {old f m : Callable} :
      CallableKept old f m → Kept (.function old) (.function f) (.function m)
  | method {old f m : Callable} :
      CallableKept old f m → Kept (.method old) (.method f) (.method m)
  | property {old a m : Attribute} :
      AttributeKept placeholder old a m → Kept (.property old) (.property a) (.property m)
  | data {old a m : Attribute} :
      AttributeKept placeholder old a m → Kept (.data old) (.data a) (.data m)
  | type (old info : TypeInfo) (ms ns ks : Table Entry) :
      Kept (.type old ms) (.type info ns) (.type info ks)
  | multiple (old es : List Entry) : Kept (.multiple old) (.multiple es) (.multiple es)
  | typeRef (old t : TypeName) : Kept (.typeRef old) (.typeRef t) (.typeRef t)
  | moduleRef (old m : String) : Kept (.moduleRef old) (.moduleRef m) (.moduleRef m)

theorem callableKept_adopt (old fresh : Callable) : CallableKept old fresh (adopt old fresh) where
  overloads := by
    cases h : fresh.overloads with
    | nil => simp [adopt, h]
    | cons o os => simp [adopt, h]
  doc := by
    cases h : fresh.doc with
    | none => simp [adopt, h]
    | some d => simp [adopt, h]
  builtin := rfl
  static := rfl

theorem kept_entry {old fresh : Entry} (h : old.kind = fresh.kind) :
    Kept placeholder old fresh (entry placeholder old fresh) := by
  cases old <;> cases fresh <;> cases h
  case function.function old f => exact .function (callableKept_adopt old f)
  case method.method old f => exact .method (callableKept_adopt old f)
  case property.property old a => exact .property ⟨rfl, rfl⟩
  case data.data old a => exact .data ⟨rfl, rfl⟩
  case type.type old ms info ns => exact .type old info ms ns _
  case multiple.multiple old es => exact .multiple old es
  case typeRef.typeRef old t => exact .typeRef old t
  case moduleRef.moduleRef old m => exact .moduleRef old m

/-- The baseline and the fresh record have entries of one kind at a path, below types in both. -/
def Shared (base fresh : Record) (path : List String) : Prop :=
  (base.TypesAbove path ∧ fresh.TypesAbove path) ∧
    ∃ old new, base.at? path = some old ∧ fresh.at? path = some new ∧ old.kind = new.kind

/-- The merged record at every path. It has an entry where the fresh record has one, of the same
kind. Where the baseline shares the path, the entry is what `Kept` says; everywhere else it is the
fresh entry, to the last member. -/
theorem merged_at_path (base fresh : Record) (path : List String) :
    (((record placeholder (some base) fresh).at? path).map Entry.kind =
        (fresh.at? path).map Entry.kind) ∧
      (Shared base fresh path → ∃ old new merged, base.at? path = some old ∧
        fresh.at? path = some new ∧
        (record placeholder (some base) fresh).at? path = some merged ∧
        Kept placeholder old new merged) ∧
      (¬ Shared base fresh path →
        (record placeholder (some base) fresh).at? path = fresh.at? path) ∧
      (record placeholder (some base) fresh).doc = fresh.doc ∧
      record placeholder none fresh = fresh := by
  refine ⟨?_, ?_, ?_, rfl, rfl⟩
  · rw [at?_record, Option.map_map]
    congr 1
    funext e
    exact kind_withBase placeholder _ e
  · rintro ⟨-, old, new, hold, hnew, hkind⟩
    refine ⟨old, new, entry placeholder old new, hold, hnew, ?_, kept_entry placeholder hkind⟩
    rw [at?_record, hold, hnew]
    rfl
  · intro hnot
    rw [at?_record]
    cases hnew : fresh.at? path with
    | none => rfl
    | some new =>
        cases hold : base.at? path with
        | none => rfl
        | some old =>
            have hkind : old.kind ≠ new.kind := by
              intro h
              exact hnot ⟨⟨Record.typesAbove_of_at? hold, Record.typesAbove_of_at? hnew⟩,
                old, new, hold, hnew, h⟩
            simp [entry_of_kind_ne placeholder hkind]

/-- A record with one type and one method in it. -/
def methodRecord (f : Callable) : Record where
  members := [("A", .type {} [("f", .method f)])]

theorem shared_methodRecord (f g : Callable) :
    Shared (methodRecord f) (methodRecord g) ["A", "f"] := by
  have hf : (methodRecord f).at? ["A", "f"] = some (.method f) := rfl
  have hg : (methodRecord g).at? ["A", "f"] = some (.method g) := rfl
  exact ⟨⟨Record.typesAbove_of_at? hf, Record.typesAbove_of_at? hg⟩, _, _, hf, hg, rfl⟩

theorem merged_at_path_method :
    Shared (methodRecord { doc := some "f()" }) (methodRecord { static := true }) ["A", "f"] ∧
      ∃ old new merged, (methodRecord { doc := some "f()" }).at? ["A", "f"] = some old ∧
        (methodRecord { static := true }).at? ["A", "f"] = some new ∧
        (record ⟨"m", "object"⟩ (some (methodRecord { doc := some "f()" }))
          (methodRecord { static := true })).at? ["A", "f"] = some merged ∧
        Kept ⟨"m", "object"⟩ old new merged :=
  ⟨shared_methodRecord _ _, (merged_at_path _ _ _ _).2.1 (shared_methodRecord _ _)⟩

end CompletionDb.Merge
