import CompletionDb.Proofs.MergeReport

/-!
# Laws of merging

Taking over what is missing is associative at a single callable, property or datum: the newest value
that is known counts, however the three are grouped. A whole record is merged member by member, so
the law holds for records as well, as long as no member of the newest record is unknown to the one
in the middle. Such a member would be dropped on the way, with all that the oldest record knew of
it.

A merge is also stable. Merged again, with the baseline or with its own fresh record, the merged
record stays as it is, and only the conflicts of the first merge are reported again.
-/
namespace CompletionDb

/-! ## Known members -/

/-- Whatever stands at a path below the newer entry, the older one has an entry of the same kind
there; the two entries themselves are of one kind. -/
def Entry.Covers (old new : Entry) : Prop :=
  ∀ path e, new.at? path = some e → ∃ d, old.at? path = some d ∧ d.kind = e.kind

/-- Every member of the newer record, at any depth, is in the older one with the same kind. -/
def Record.Covers (old new : Record) : Prop :=
  ∀ path e, new.at? path = some e → ∃ d, old.at? path = some d ∧ d.kind = e.kind

theorem Entry.Covers.kind {old new : Entry} (h : old.Covers new) : old.kind = new.kind := by
  obtain ⟨d, hd, hkind⟩ := h [] new rfl
  rw [← hkind, ← Option.some.inj hd]

theorem Entry.Covers.member {old new : Entry} (h : old.Covers new) {name : String} {e : Entry}
    (he : new.members.find? name = some e) :
    ∃ d, old.members.find? name = some d ∧ d.Covers e := by
  have hnew : ∀ path, new.at? (name :: path) = e.at? path := by
    intro path
    rw [at?_cons, he, Option.bind_some]
  obtain ⟨d, hd, -⟩ := h [name] e (hnew [])
  rw [at?_cons, Option.bind_eq_some_iff] at hd
  obtain ⟨d, hfind, -⟩ := hd
  refine ⟨d, hfind, fun path e' he' => ?_⟩
  obtain ⟨d', hd', hkind⟩ := h (name :: path) e' ((hnew path).trans he')
  rw [at?_cons, hfind, Option.bind_some] at hd'
  exact ⟨d', hd', hkind⟩

theorem Record.Covers.asType {old new : Record} (h : old.Covers new) :
    old.asType.Covers new.asType := by
  intro path e he
  by_cases hne : path = []
  · subst hne
    rw [← Option.some.inj he]
    exact ⟨old.asType, rfl, rfl⟩
  · rw [new.at?_asType hne] at he
    rw [old.at?_asType hne]
    exact h path e he

namespace Merge
variable (placeholder : TypeName)

/-! ## Three records in a row -/

theorem adopt_assoc (base old new : Callable) :
    adopt (adopt base old) new = adopt base (adopt old new) := by
  have hoverloads : (adopt (adopt base old) new).overloads =
      (adopt base (adopt old new)).overloads := by
    cases hnew : new.overloads with
    | nil => simp [adopt, hnew]
    | cons o os => simp [adopt, hnew]
  have hdoc : (adopt (adopt base old) new).doc = (adopt base (adopt old new)).doc :=
    (Option.or_assoc ..).symm
  rw [Callable.mk.injEq]
  exact ⟨hdoc, hoverloads, rfl, rfl⟩

theorem narrow_assoc (base old new : Attribute) :
    narrow placeholder (narrow placeholder base old) new =
      narrow placeholder base (narrow placeholder old new) := by
  by_cases hnew : new.type = placeholder <;> simp [narrow, hnew]

/-- If each member of the newest table is known and merged alike in both ways, so is the table. -/
theorem table_assoc {base old new : Table Entry}
    (h : ∀ m ∈ new, ∃ d, old.find? m.1 = some d ∧ ∀ b,
      entry placeholder (entry placeholder b d) m.2 =
        entry placeholder b (entry placeholder d m.2)) :
    table placeholder (table placeholder base old) new =
      table placeholder base (table placeholder old new) := by
  rw [table_eq_map placeholder (table placeholder base old),
    table_eq_map placeholder base (table placeholder old new), table_eq_map placeholder old new,
    List.map_map]
  apply List.map_congr_left
  intro m hm
  obtain ⟨d, hd, hmerge⟩ := h m hm
  simp only [find?_table, Function.comp_def, hd, Option.map_some, withBase_some]
  cases base.find? m.1 with
  | none => rfl
  | some b => rw [withBase_some, withBase_some, hmerge b]

theorem entry_assoc (new : Entry) : new.Ordered → ∀ old : Entry, old.Covers new → ∀ base,
    entry placeholder (entry placeholder base old) new =
      entry placeholder base (entry placeholder old new) := by
  induction new using Entry.inductionOn with
  | function f | method f =>
      intro _ old hcovers base
      have hkind := hcovers.kind
      cases old <;> cases hkind
      cases base <;> simp only [entry, adopt_assoc]
  | property a | data a =>
      intro _ old hcovers base
      have hkind := hcovers.kind
      cases old <;> cases hkind
      cases base <;> simp only [entry, narrow_assoc]
  | type info members ih =>
      intro h old hcovers base
      obtain ⟨hasc, hmem⟩ := Entry.ordered_type.mp h
      have hkind := hcovers.kind
      cases old <;> cases hkind
      cases base with
      | type _ ms =>
          rw [entry, entry, entry, entry, table_assoc placeholder]
          intro m hm
          obtain ⟨d, hd, hbelow⟩ := hcovers.member (Table.find?_of_mem hasc hm)
          exact ⟨d, hd, ih m hm (hmem m hm) d hbelow⟩
      | _ => rfl
  | multiple es | typeRef t | moduleRef m =>
      intro _ old _ base
      cases old <;> cases base <;> rfl

/-- Merging is associative where every member of the newest record is known, with its kind, to the
record in the middle. The oldest record is arbitrary and may be missing. -/
theorem merge_assoc {old new : Record} (h : new.Ordered) (hcovers : old.Covers new)
    (base : Option Record) :
    record placeholder (some (record placeholder base old)) new =
      record placeholder base (record placeholder (some old) new) := by
  have hentry : ∀ ms : Table Entry,
      entry placeholder (entry placeholder (.type {} ms) old.asType) new.asType =
        entry placeholder (.type {} ms) (entry placeholder old.asType new.asType) := fun ms =>
    entry_assoc placeholder new.asType (Record.ordered_asType.mpr h) old.asType hcovers.asType _
  have htable : ∀ ms : Table Entry,
      table placeholder (table placeholder ms old.members) new.members =
        table placeholder ms (table placeholder old.members new.members) :=
    fun ms => (Entry.type.inj (hentry ms)).2
  rw [record_eq placeholder base, record_eq placeholder base, record, record, htable]

/-- The type of `knownRecord` with its method and its property, of which nothing but the doc text of
the method is known. -/
def docRecord : Record where
  members := [("A", .type {} [
    ("f", .method { doc := some "A.f()" }),
    ("p", .property { type := ⟨"m", "object"⟩ })])]

theorem covers_docRecord : namedRecord.Covers docRecord := by
  intro path e he
  have hkinds : ∀ path ∈ docRecord.paths,
      (namedRecord.at? path).map Entry.kind = (docRecord.at? path).map Entry.kind := by decide
  have hmem : path ∈ docRecord.paths := by
    rw [Record.mem_paths (by decide), he]
    rfl
  have hkind := hkinds path hmem
  rw [he, Option.map_some] at hkind
  exact Option.map_eq_some_iff.mp hkind

theorem merge_assoc_docRecord :
    docRecord.Ordered ∧ namedRecord.Covers docRecord ∧
      record ⟨"m", "object"⟩ (some (record ⟨"m", "object"⟩ (some knownRecord) namedRecord))
          docRecord =
        record ⟨"m", "object"⟩ (some knownRecord)
          (record ⟨"m", "object"⟩ (some namedRecord) docRecord) :=
  ⟨by decide, covers_docRecord,
    merge_assoc ⟨"m", "object"⟩ (by decide) covers_docRecord (some knownRecord)⟩

-- A record in the middle that lacks the members loses what the oldest one knew of them.
example : record ⟨"m", "object"⟩ (some (record ⟨"m", "object"⟩ (some knownRecord) {})) docRecord ≠
    record ⟨"m", "object"⟩ (some knownRecord) (record ⟨"m", "object"⟩ (some {}) docRecord) := by
  decide

/-! ## Merging a merged record -/

theorem entry_base_entry (fresh base : Entry) :
    entry placeholder base (entry placeholder base fresh) = entry placeholder base fresh := by
  induction fresh using Entry.inductionOn generalizing base with
  | function f | method f => cases base <;> simp only [entry, ← adopt_assoc, adopt_self]
  | property a | data a => cases base <;> simp only [entry, ← narrow_assoc, narrow_self]
  | type info members ih =>
      cases base with
      | type _ ms =>
          have htable : table placeholder ms (table placeholder ms members) =
              table placeholder ms members := by
            rw [table_eq_map placeholder ms (table placeholder ms members),
              table_eq_map placeholder ms members, List.map_map]
            apply List.map_congr_left
            intro m hm
            simp only [Function.comp_def]
            cases Table.find? ms m.1 with
            | none => rfl
            | some o => simp [ih m hm o]
          rw [entry, entry, htable]
      | _ => rfl
  | multiple es | typeRef t | moduleRef m => cases base <;> rfl

/-- Once merged with a baseline, a record takes nothing more from it. -/
theorem record_base_record (base : Option Record) (fresh : Record) :
    record placeholder base (record placeholder base fresh) = record placeholder base fresh := by
  cases base with
  | none => rfl
  | some base =>
      have hentry := entry_base_entry placeholder fresh.asType base.asType
      have htable : table placeholder base.members (table placeholder base.members fresh.members) =
          table placeholder base.members fresh.members := (Entry.type.inj hentry).2
      rw [record, record, htable]

theorem paths_entry (fresh base : Entry) : (entry placeholder base fresh).paths = fresh.paths := by
  induction fresh using Entry.inductionOnMembers generalizing base with
  | step fresh ih =>
      rw [Entry.paths_eq, Entry.paths_eq, members_entry, Entry.tablePaths_eq_flatMap,
        Entry.tablePaths_eq_flatMap, table_eq_map, List.flatMap_map]
      congr 1
      apply List.flatMap_congr
      intro m hm
      cases Table.find? base.members m.1 with
      | none => rfl
      | some o => simp [ih m hm o]

@[simp] theorem paths_record (base fresh : Record) :
    (record placeholder (some base) fresh).paths = fresh.paths := by
  have hentry := paths_entry placeholder fresh.asType base.asType
  rw [Record.paths_asType] at hentry
  exact (List.cons.inj hentry).2

theorem conflictingKinds?_record (base fresh : Record) (path : List String) :
    conflictingKinds? base (record placeholder (some base) fresh) path =
      conflictingKinds? base fresh path := by
  unfold conflictingKinds?
  rw [at?_record]
  cases fresh.at? path with
  | none => rfl
  | some new =>
      cases base.at? path with
      | none => rfl
      | some old => simp only [Option.map_some, withBase_some, kind_entry]

/-- A merge that changes nothing counts nothing. -/
theorem report_of_record_eq_self {base fresh : Record} (h : fresh.Ordered)
    (hsame : record placeholder (some base) fresh = fresh) :
    report placeholder (some base) fresh =
      ⟨(report placeholder (some base) fresh).conflicts, 0, 0, 0⟩ := by
  have hnone : ∀ {β : Type} (field : Entry → Option β) path,
      ¬ Record.DiffersAt field (record placeholder (some base) fresh) fresh path := by
    intro β field path hdiffers
    rw [hsame] at hdiffers
    exact hdiffers rfl
  rw [Report.mk.injEq]
  exact ⟨rfl, (count_eq_zero_iff (encard_overloads placeholder h base)).mpr (hnone _),
    (count_eq_zero_iff (encard_docs placeholder h base)).mpr (hnone _),
    (count_eq_zero_iff (encard_types placeholder h base)).mpr (hnone _)⟩

theorem report_base_record {fresh : Record} (h : fresh.Ordered) (base : Option Record) :
    report placeholder base (record placeholder base fresh) =
      ⟨(report placeholder base fresh).conflicts, 0, 0, 0⟩ := by
  cases base with
  | none => rfl
  | some base =>
      have hmerged := ordered_record placeholder h (some base)
      have hconflicts :
          (report placeholder (some base) (record placeholder (some base) fresh)).conflicts =
            (report placeholder (some base) fresh).conflicts := by
        rw [conflicts_report hmerged, conflicts_report h, paths_record]
        simp only [conflictingKinds?_record]
      rw [report_of_record_eq_self placeholder hmerged (record_base_record placeholder _ fresh),
        hconflicts]

/-- Merging is stable. A merged record that is merged with the same baseline again stays as it is:
nothing is adopted or narrowed, and the conflicts are those of the first merge. Its own fresh record
merged with it gives it once more, without conflicts, and a record merged with itself is a merge in
which nothing happens. -/
theorem merge_stable {fresh : Record} (h : fresh.Ordered) (base : Option Record) :
    (record placeholder base (record placeholder base fresh) = record placeholder base fresh ∧
      report placeholder base (record placeholder base fresh) =
        ⟨(report placeholder base fresh).conflicts, 0, 0, 0⟩) ∧
    (record placeholder (some (record placeholder base fresh)) fresh =
        record placeholder base fresh ∧
      (report placeholder (some (record placeholder base fresh)) fresh).conflicts = []) ∧
    record placeholder (some fresh) fresh = fresh ∧
      (report placeholder (some fresh) fresh).isNoop = true := by
  have hself : record placeholder (some fresh) fresh = fresh := record_record placeholder h none
  have hquiet : (report placeholder (some fresh) fresh).conflicts = [] :=
    conflicts_report_record placeholder h none
  refine ⟨⟨record_base_record placeholder base fresh, report_base_record placeholder h base⟩,
    ⟨record_record placeholder h base, conflicts_report_record placeholder h base⟩, hself, ?_⟩
  rw [isNoop_report_iff placeholder h, ← conflicts_eq_nil_iff placeholder h]
  exact ⟨hself, hquiet⟩

theorem merge_stable_namedRecord :
    namedRecord.Ordered ∧
      report ⟨"m", "object"⟩ (some knownRecord) namedRecord =
        ⟨[⟨"A.c", .data, .method⟩], 1, 1, 1⟩ ∧
      record ⟨"m", "object"⟩ (some knownRecord)
          (record ⟨"m", "object"⟩ (some knownRecord) namedRecord) =
        record ⟨"m", "object"⟩ (some knownRecord) namedRecord ∧
      report ⟨"m", "object"⟩ (some knownRecord)
          (record ⟨"m", "object"⟩ (some knownRecord) namedRecord) =
        ⟨[⟨"A.c", .data, .method⟩], 0, 0, 0⟩ := by
  have hordered : namedRecord.Ordered := by decide
  have hreport : report ⟨"m", "object"⟩ (some knownRecord) namedRecord =
      ⟨[⟨"A.c", .data, .method⟩], 1, 1, 1⟩ := by decide
  obtain ⟨⟨hrecord, hagain⟩, -⟩ := merge_stable ⟨"m", "object"⟩ hordered (some knownRecord)
  rw [hreport] at hagain
  exact ⟨hordered, hreport, hrecord, hagain⟩

end Merge
end CompletionDb
