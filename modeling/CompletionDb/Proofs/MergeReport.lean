import Mathlib.Data.Set.Card
import CompletionDb.Merge.Report
import CompletionDb.Proofs.MergeStability
import CompletionDb.Proofs.RecordPaths

/-!
# What the report of a merge counts

A merge walks through the fresh record and notes what it does at each member. The notes are those of
the paths of the fresh record, one path after the other, and what is noted at a path depends on the
two entries there alone; `notes_eq_flatMap` says so. The counts of a report are then counts of
paths, and the conflicts are a list of paths in order.

`Meeting` lists what can become of a fresh entry that meets an older one, with what is noted of it.
Every count is read off that list.
-/
namespace CompletionDb

/-- Two records differ in a field of the entry at a path; an entry may be without that field. -/
def Record.DiffersAt {β : Type} (field : Entry → Option β) (r r' : Record) (path : List String) :
    Prop :=
  (r.at? path).bind field ≠ (r'.at? path).bind field

instance {β : Type} [DecidableEq β] (field : Entry → Option β) (r r' : Record) :
    DecidablePred (Record.DiffersAt field r r') :=
  fun _ => inferInstanceAs (Decidable (_ ≠ _))

namespace Merge
variable (placeholder : TypeName)

/-! ## What is noted of two entries -/

/-- What is found at a member itself, without what is found below it. -/
def ownFindings : (old fresh : Entry) → List Finding
  | .type _ _, .type _ _ => []
  | .function old, .function f | .method old, .method f => adoptFindings old f
  | .property old, .property a | .data old, .data a => narrowFindings placeholder old a
  | old, fresh =>
    if old.kind = fresh.kind then [.noRule fresh.kind] else [.conflict fresh.kind old.kind]

@[simp] theorem tableNotes_nil (path : List String) (fresh : Table Entry) :
    tableNotes placeholder path [] fresh = [] := by
  induction fresh with
  | nil => rfl
  | cons m fresh ih =>
      obtain ⟨name, e⟩ := m
      rw [tableNotes, ih]
      rfl

theorem entryNotes_eq (path : List String) (old fresh : Entry) :
    entryNotes placeholder path old fresh =
      (ownFindings placeholder old fresh).map (Note.mk path) ++
        tableNotes placeholder path old.members fresh.members := by
  cases old <;> cases fresh <;>
    simp [entryNotes, ownFindings, Entry.kind, Entry.members, tableNotes]

/-- What a fresh entry becomes when it meets an older one, and what is noted of it. Of a type only
its own fields are told. -/
inductive Meeting : (old fresh merged : Entry) → List Finding → Prop
  | function (old f : Callable) :
      Meeting (.function old) (.function f) (.function (adopt old f)) (adoptFindings old f)
  | method (old f : Callable) :
      Meeting (.method old) (.method f) (.method (adopt old f)) (adoptFindings old f)
  | property (old a : Attribute) :
      Meeting (.property old) (.property a) (.property (narrow placeholder old a))
        (narrowFindings placeholder old a)
  | data (old a : Attribute) :
      Meeting (.data old) (.data a) (.data (narrow placeholder old a))
        (narrowFindings placeholder old a)
  | type (old info : TypeInfo) (ms ns ks : Table Entry) :
      Meeting (.type old ms) (.type info ns) (.type info ks) []
  | noRule {old fresh : Entry} :
      old.kind = fresh.kind → Meeting old fresh fresh [.noRule fresh.kind]
  | conflict {old fresh : Entry} :
      old.kind ≠ fresh.kind → Meeting old fresh fresh [.conflict fresh.kind old.kind]

theorem meeting_of_kind_eq {old fresh : Entry} (h : old.kind = fresh.kind) :
    Meeting placeholder old fresh (entry placeholder old fresh)
      (ownFindings placeholder old fresh) := by
  cases old <;> cases fresh <;> cases h
  case function.function old f => exact .function old f
  case method.method old f => exact .method old f
  case property.property old a => exact .property old a
  case data.data old a => exact .data old a
  case type.type old ms info ns => exact .type old info ms ns _
  case multiple.multiple => exact .noRule rfl
  case typeRef.typeRef => exact .noRule rfl
  case moduleRef.moduleRef => exact .noRule rfl

theorem meeting (old fresh : Entry) :
    Meeting placeholder old fresh (entry placeholder old fresh)
      (ownFindings placeholder old fresh) := by
  by_cases hkind : old.kind = fresh.kind
  · exact meeting_of_kind_eq placeholder hkind
  · have hown : ownFindings placeholder old fresh = [.conflict fresh.kind old.kind] := by
      cases old <;> cases fresh <;> first | rfl | exact absurd rfl hkind
    rw [entry_of_kind_ne placeholder hkind, hown]
    exact .conflict hkind

theorem adopt_eq_self {old f : Callable} (hoverloads : (adopt old f).overloads = f.overloads)
    (hdoc : (adopt old f).doc = f.doc) : adopt old f = f := by
  have hfields : adopt old f =
      { f with overloads := (adopt old f).overloads, doc := (adopt old f).doc } := rfl
  rw [hfields, hoverloads, hdoc]

theorem narrow_eq_self {old a : Attribute} (htype : (narrow placeholder old a).type = a.type) :
    narrow placeholder old a = a := by
  have hfields : narrow placeholder old a =
      { a with type := (narrow placeholder old a).type } := rfl
  rw [hfields, htype]

/-! ## Findings by their sort -/

theorem countP_overloads_adoptFindings (old f : Callable) :
    (adoptFindings old f).countP Finding.isOverloadsAdopted =
      if (adopt old f).overloads = f.overloads then 0 else 1 := by
  have hdoc : (if f.doc.isNone && old.doc.isSome then [Finding.docAdopted] else []).countP
      Finding.isOverloadsAdopted = 0 := by
    split <;> rfl
  rw [adoptFindings, List.countP_append, hdoc]
  cases hf : f.overloads with
  | nil => cases ho : old.overloads <;> simp [adopt, hf, ho, Finding.isOverloadsAdopted]
  | cons o os => simp [adopt, hf, Finding.isOverloadsAdopted]

theorem countP_docs_adoptFindings (old f : Callable) :
    (adoptFindings old f).countP (· == .docAdopted) =
      if (adopt old f).doc = f.doc then 0 else 1 := by
  have hoverloads : (if f.overloads.isEmpty then
      if old.overloads.isEmpty then [] else [Finding.overloadsAdopted old.overloads.length]
      else [.overloadsKept f.overloads.length]).countP (· == .docAdopted) = 0 := by
    split
    · split <;> rfl
    · rfl
  rw [adoptFindings, List.countP_append, hoverloads]
  cases hf : f.doc with
  | none => cases ho : old.doc <;> simp [adopt, hf, ho]
  | some d => simp [adopt, hf]

@[simp] theorem countP_types_adoptFindings (old f : Callable) :
    (adoptFindings old f).countP Finding.isTypeNarrowed = 0 := by
  rw [adoptFindings, List.countP_append]
  split_ifs <;> rfl

theorem countP_types_narrowFindings (old a : Attribute) :
    (narrowFindings placeholder old a).countP Finding.isTypeNarrowed =
      if (narrow placeholder old a).type = a.type then 0 else 1 := by
  by_cases ha : a.type = placeholder <;> by_cases ho : old.type = placeholder <;>
    simp [narrowFindings, narrow, ha, ho, Finding.isTypeNarrowed]

theorem countP_narrowFindings {sort : Finding → Bool} (hsort : ∀ t, sort (.typeNarrowed t) = false)
    (old a : Attribute) : (narrowFindings placeholder old a).countP sort = 0 := by
  unfold narrowFindings
  split_ifs
  · rw [List.countP_singleton, hsort]
    rfl
  · rfl

theorem conflict?_adoptFindings {path : List String} {old f : Callable} {finding : Finding}
    (h : finding ∈ adoptFindings old f) : (⟨path, finding⟩ : Note).conflict? = none := by
  unfold adoptFindings at h
  rw [List.mem_append] at h
  rcases h with h | h
  · split_ifs at h <;> simp_all [Note.conflict?]
  · split_ifs at h <;> simp_all [Note.conflict?]

theorem conflict?_narrowFindings {path : List String} {old a : Attribute} {finding : Finding}
    (h : finding ∈ narrowFindings placeholder old a) :
    (⟨path, finding⟩ : Note).conflict? = none := by
  unfold narrowFindings at h
  split_ifs at h
  · rw [List.mem_singleton.mp h]
    rfl
  · cases h

namespace Meeting
variable {placeholder : TypeName} {old fresh merged : Entry} {findings : List Finding}

theorem countP_overloads (h : Meeting placeholder old fresh merged findings) :
    findings.countP Finding.isOverloadsAdopted =
      if merged.overloads? = fresh.overloads? then 0 else 1 := by
  cases h with
  | function old f | method old f =>
      simp only [Entry.overloads?, Entry.callable?, Option.map_some, Option.some.injEq]
      exact countP_overloads_adoptFindings old f
  | property old a | data old a =>
      rw [countP_narrowFindings placeholder fun _ => rfl]
      rfl
  | type | noRule | conflict =>
      simp [Finding.isOverloadsAdopted, Entry.overloads?, Entry.callable?]

theorem countP_docs (h : Meeting placeholder old fresh merged findings) :
    findings.countP (· == .docAdopted) =
      if merged.callableDoc? = fresh.callableDoc? then 0 else 1 := by
  cases h with
  | function old f | method old f =>
      simp only [Entry.callableDoc?, Entry.callable?, Option.map_some, Option.some.injEq]
      exact countP_docs_adoptFindings old f
  | property old a | data old a =>
      rw [countP_narrowFindings placeholder fun _ => rfl]
      rfl
  | type | noRule | conflict => simp [Entry.callableDoc?, Entry.callable?]

theorem countP_types (h : Meeting placeholder old fresh merged findings) :
    findings.countP Finding.isTypeNarrowed =
      if merged.valueType? = fresh.valueType? then 0 else 1 := by
  cases h with
  | function old f | method old f => exact countP_types_adoptFindings old f
  | property old a | data old a =>
      simp only [Entry.valueType?, Entry.attribute?, Option.map_some, Option.some.injEq]
      exact countP_types_narrowFindings placeholder old a
  | type | noRule | conflict =>
      simp [Finding.isTypeNarrowed, Entry.valueType?, Entry.attribute?]

/-- Only kinds that differ are a conflict. -/
theorem filterMap_conflict? (h : Meeting placeholder old fresh merged findings)
    (path : List String) :
    (findings.map (Note.mk path)).filterMap Note.conflict? =
      if old.kind = fresh.kind then [] else [⟨dotted path, fresh.kind, old.kind⟩] := by
  have hnone : ∀ {fs : List Finding}, (∀ f ∈ fs, (⟨path, f⟩ : Note).conflict? = none) →
      (fs.map (Note.mk path)).filterMap Note.conflict? = [] := by
    intro fs hfs
    rw [List.filterMap_map, List.filterMap_eq_nil_iff]
    exact hfs
  cases h with
  | function old f | method old f => exact hnone fun _ => conflict?_adoptFindings
  | property old a | data old a => exact hnone fun _ => conflict?_narrowFindings placeholder
  | type => rfl
  | noRule hkind => simp [hkind, Note.conflict?]
  | conflict hkind => simp [hkind, Note.conflict?]

/-- An entry that is no type stays as it is if the fields stay that a merge may change. -/
theorem eq_of_fields (h : Meeting placeholder old fresh merged findings)
    (hleaf : fresh.kind ≠ .type) (hoverloads : merged.overloads? = fresh.overloads?)
    (hdoc : merged.callableDoc? = fresh.callableDoc?)
    (htype : merged.valueType? = fresh.valueType?) : merged = fresh := by
  cases h with
  | function old f | method old f =>
      rw [adopt_eq_self (Option.some.inj hoverloads) (Option.some.inj hdoc)]
  | property old a | data old a => rw [narrow_eq_self placeholder (Option.some.inj htype)]
  | type => exact absurd rfl hleaf
  | noRule | conflict => rfl

end Meeting

/-! ## Notes along the paths -/

/-- What is found at a path, given what stands there. -/
def findingsAt (old fresh : Option Entry) : List Finding :=
  match old, fresh with
  | some old, some fresh => ownFindings placeholder old fresh
  | _, _ => []

theorem tableNotes_eq_flatMap (path : List String) (base fresh : Table Entry) :
    tableNotes placeholder path base fresh = fresh.flatMap fun m =>
      (base.find? m.1).elim [] fun old => entryNotes placeholder (path ++ [m.1]) old m.2 := by
  induction fresh with
  | nil => rfl
  | cons m fresh ih =>
      obtain ⟨name, e⟩ := m
      rw [tableNotes, ih, List.flatMap_cons]
      cases base.find? name <;> rfl

/-- The notes of an entry are those of its paths, one after the other. -/
theorem entryNotes_eq_flatMap (fresh : Entry) :
    fresh.Ordered → ∀ (old : Entry) (path : List String),
    entryNotes placeholder path old fresh = fresh.paths.flatMap fun below =>
      (findingsAt placeholder (old.at? below) (fresh.at? below)).map (Note.mk (path ++ below)) := by
  induction fresh using Entry.inductionOnMembers with
  | step fresh ih =>
      intro h old path
      obtain ⟨hasc, hmembers⟩ := h.members
      rw [entryNotes_eq, tableNotes_eq_flatMap, Entry.paths_eq, Entry.tablePaths_eq_flatMap,
        List.flatMap_cons, List.append_nil, List.flatMap_assoc]
      congr 1
      apply List.flatMap_congr
      intro m hm
      -- The table is ordered, so no other member is found under this name.
      have hfresh : ∀ below, fresh.at? (m.1 :: below) = m.2.at? below := by
        intro below
        rw [Entry.at?_cons, Table.find?_of_mem hasc hm, Option.bind_some]
      simp only [List.flatMap_map, hfresh, Entry.at?_cons]
      cases old.members.find? m.1 with
      | none => simp [findingsAt]
      | some o => simp only [Option.elim_some, ih m hm (hmembers m hm) o, Option.bind_some,
          List.append_assoc, List.singleton_append]

/-- The notes of a merge are those of the paths of the fresh record, one after the other. -/
theorem notes_eq_flatMap {fresh : Record} (h : fresh.Ordered) (base : Record) :
    notes placeholder (some base) fresh = fresh.paths.flatMap fun path =>
      (findingsAt placeholder (base.at? path) (fresh.at? path)).map (Note.mk path) := by
  have hnotes := entryNotes_eq_flatMap placeholder fresh.asType (Record.ordered_asType.mpr h)
    base.asType []
  rw [Record.paths_asType, List.flatMap_cons] at hnotes
  refine hnotes.trans (List.flatMap_congr fun path hpath => ?_)
  have hne := Record.ne_nil_of_mem_paths hpath
  rw [base.at?_asType hne, fresh.at?_asType hne, List.nil_append]

/-! ## Counts -/

theorem countP_flatMap_eq {α β : Type} {l : List α} {f : α → List β} {p : β → Bool} {q : α → Bool}
    (h : ∀ a ∈ l, (f a).countP p = if q a then 1 else 0) : (l.flatMap f).countP p = l.countP q := by
  induction l with
  | nil => rfl
  | cons a l ih =>
      obtain ⟨ha, hl⟩ := List.forall_mem_cons.mp h
      rw [List.flatMap_cons, List.countP_append, ha, ih hl, List.countP_cons, Nat.add_comm]

section
variable {placeholder : TypeName} {base fresh : Record} {β : Type} {field : Entry → Option β}

theorem mem_paths_of_differsAt (h : fresh.Ordered) {path : List String}
    (hdiffers : Record.DiffersAt field (record placeholder (some base) fresh) fresh path) :
    path ∈ fresh.paths := by
  rw [Record.mem_paths h]
  by_contra hnone
  rw [Option.not_isSome_iff_eq_none] at hnone
  rw [Record.DiffersAt, at?_record, hnone] at hdiffers
  exact hdiffers rfl

variable [DecidableEq β] {sort : Finding → Bool}

/-- If a sort of findings marks the entries that change in a field, it marks the paths at which the
merged record differs from the fresh one in that field. -/
theorem countP_notes
    (hsort : ∀ old new, (ownFindings placeholder old new).countP sort =
      if field (entry placeholder old new) = field new then 0 else 1)
    (h : fresh.Ordered) :
    (notes placeholder (some base) fresh).countP (sort ·.finding) =
      fresh.paths.countP
        (Record.DiffersAt field (record placeholder (some base) fresh) fresh ·) := by
  rw [notes_eq_flatMap placeholder h]
  apply countP_flatMap_eq
  intro path _
  rw [List.countP_map]
  simp only [Record.DiffersAt, at?_record, Function.comp_def]
  cases fresh.at? path with
  | none => simp [findingsAt]
  | some new =>
      cases base.at? path with
      | none => simp [findingsAt]
      | some old =>
          simp only [findingsAt, Option.map_some, Option.bind_some, withBase_some, hsort old new]
          by_cases hsame : field (entry placeholder old new) = field new <;> simp [hsame]

/-- The paths at which a field changes are as many as the findings that mark a change. -/
theorem encard_differsAt (base : Record)
    (hsort : ∀ old new, (ownFindings placeholder old new).countP sort =
      if field (entry placeholder old new) = field new then 0 else 1)
    (h : fresh.Ordered) :
    {path | Record.DiffersAt field (record placeholder (some base) fresh) fresh path}.encard =
      (notes placeholder (some base) fresh).countP (sort ·.finding) := by
  have hlist : {path | Record.DiffersAt field (record placeholder (some base) fresh) fresh path} =
      ((fresh.paths.filter (Record.DiffersAt field (record placeholder (some base) fresh) fresh
        ·)).toFinset : Set (List String)) := by
    ext path
    rw [List.coe_toFinset]
    simp only [Set.mem_ofPred_eq, List.mem_filter, decide_eq_true_eq]
    exact ⟨fun hdiffers => ⟨mem_paths_of_differsAt h hdiffers, hdiffers⟩, And.right⟩
  rw [hlist, Set.encard_coe_eq_coe_finsetCard,
    List.toFinset_card_of_nodup ((Record.nodup_paths h).filter _), countP_notes hsort h,
    List.countP_eq_length_filter]

end

theorem encard_overloads {fresh : Record} (h : fresh.Ordered) (base : Record) :
    {path | Record.DiffersAt Entry.overloads? (record placeholder (some base) fresh) fresh
      path}.encard = (report placeholder (some base) fresh).overloadsAdopted :=
  encard_differsAt base (fun old new => (meeting placeholder old new).countP_overloads) h

theorem encard_docs {fresh : Record} (h : fresh.Ordered) (base : Record) :
    {path | Record.DiffersAt Entry.callableDoc? (record placeholder (some base) fresh) fresh
      path}.encard = (report placeholder (some base) fresh).docsAdopted :=
  encard_differsAt base (fun old new => (meeting placeholder old new).countP_docs) h

theorem encard_types {fresh : Record} (h : fresh.Ordered) (base : Record) :
    {path | Record.DiffersAt Entry.valueType? (record placeholder (some base) fresh) fresh
      path}.encard = (report placeholder (some base) fresh).typesNarrowed :=
  encard_differsAt base (fun old new => (meeting placeholder old new).countP_types) h

/-! ## Conflicts -/

/-- Both records have entries at a path, below types in both, and of two kinds. -/
structure ConflictAt (base fresh : Record) (path : List String) (new old : Kind) : Prop where
  above : base.TypesAbove path ∧ fresh.TypesAbove path
  fresh : (fresh.at? path).map Entry.kind = some new
  baseline : (base.at? path).map Entry.kind = some old
  differ : new ≠ old

/-- The kinds at a path, if both records have an entry there and they differ. -/
def conflictingKinds? (base fresh : Record) (path : List String) : Option (Kind × Kind) :=
  match fresh.at? path, base.at? path with
  | some new, some old => if old.kind = new.kind then none else some (new.kind, old.kind)
  | _, _ => none

theorem conflictingKinds?_eq_some {base fresh : Record} {path : List String} {new old : Kind} :
    conflictingKinds? base fresh path = some (new, old) ↔ ConflictAt base fresh path new old := by
  unfold conflictingKinds?
  constructor
  · intro h
    split at h
    · rename_i e d he hd
      split_ifs at h with hkind
      cases h
      exact ⟨⟨Record.typesAbove_of_at? hd, Record.typesAbove_of_at? he⟩, by rw [he]; rfl,
        by rw [hd]; rfl, fun heq => hkind heq.symm⟩
    · cases h
  · rintro ⟨-, hnew, hold, hdiffer⟩
    obtain ⟨e, he, rfl⟩ := Option.map_eq_some_iff.mp hnew
    obtain ⟨d, hd, rfl⟩ := Option.map_eq_some_iff.mp hold
    rw [he, hd]
    exact if_neg hdiffer.symm

variable {placeholder} in
theorem conflicts_report {fresh : Record} (h : fresh.Ordered) (base : Record) :
    (report placeholder (some base) fresh).conflicts = fresh.paths.filterMap fun path =>
      (conflictingKinds? base fresh path).map fun kinds => ⟨dotted path, kinds.1, kinds.2⟩ := by
  have hconflicts : (report placeholder (some base) fresh).conflicts =
      (notes placeholder (some base) fresh).filterMap Note.conflict? := rfl
  rw [hconflicts, notes_eq_flatMap placeholder h, List.filterMap_flatMap,
    List.filterMap_eq_flatMap_toList]
  apply List.flatMap_congr
  intro path _
  unfold conflictingKinds?
  cases fresh.at? path with
  | none => simp [findingsAt]
  | some new =>
      cases base.at? path with
      | none => simp [findingsAt]
      | some old =>
          rw [findingsAt, (meeting placeholder old new).filterMap_conflict? path]
          by_cases hkind : old.kind = new.kind <;> simp [hkind]

/-- The conflicts of a report are the paths in conflict, in order, with the kinds there. -/
theorem exists_conflicts {fresh : Record} (h : fresh.Ordered) (base : Record) :
    ∃ found : List (List String × Kind × Kind),
      (found.map Prod.fst).Pairwise (List.Lex (· < ·)) ∧
      (∀ path new old, (path, new, old) ∈ found ↔ ConflictAt base fresh path new old) ∧
      (report placeholder (some base) fresh).conflicts =
        found.map fun c => ⟨dotted c.1, c.2.1, c.2.2⟩ := by
  refine ⟨fresh.paths.filterMap fun path => (conflictingKinds? base fresh path).map (path, ·),
    ?_, ?_, ?_⟩
  · rw [List.pairwise_map, List.pairwise_filterMap]
    refine (Record.pairwise_paths h).imp ?_
    intro p q hlt c hc d hd
    obtain ⟨_, -, rfl⟩ := Option.map_eq_some_iff.mp hc
    obtain ⟨_, -, rfl⟩ := Option.map_eq_some_iff.mp hd
    exact hlt
  · intro path new old
    rw [List.mem_filterMap, ← conflictingKinds?_eq_some]
    constructor
    · rintro ⟨p, -, hp⟩
      obtain ⟨kinds, hkinds, heq⟩ := Option.map_eq_some_iff.mp hp
      cases heq
      exact hkinds
    · intro hkinds
      have hsome := (conflictingKinds?_eq_some.mp hkinds).fresh
      refine ⟨path, (Record.mem_paths h).mpr ?_, by rw [hkinds]; rfl⟩
      rw [← Option.isSome_map, hsome]
      rfl
  · rw [conflicts_report h, List.map_filterMap]
    simp only [Option.map_map]
    rfl

theorem conflicts_eq_nil_iff {fresh : Record} (h : fresh.Ordered) (base : Record) :
    (report placeholder (some base) fresh).conflicts = [] ↔
      ∀ path new old, ¬ ConflictAt base fresh path new old := by
  obtain ⟨found, -, hmem, heq⟩ := exists_conflicts placeholder h base
  rw [heq, List.map_eq_nil_iff, List.eq_nil_iff_forall_not_mem]
  constructor
  · intro hnone path new old hconflict
    exact hnone _ ((hmem path new old).mpr hconflict)
  · rintro hnone ⟨path, new, old⟩ hfound
    exact hnone path new old ((hmem path new old).mp hfound)

/-- A merge of records that agree in kind wherever both have something reports no conflict. -/
theorem conflicts_report_of_kinds {base fresh : Record} (h : fresh.Ordered)
    (hkinds : ∀ path old new, base.at? path = some old → fresh.at? path = some new →
      old.kind = new.kind) :
    (report placeholder (some base) fresh).conflicts = [] := by
  rw [conflicts_eq_nil_iff placeholder h]
  intro path new old hconflict
  obtain ⟨e, he, hnew⟩ := Option.map_eq_some_iff.mp hconflict.fresh
  obtain ⟨d, hd, hold⟩ := Option.map_eq_some_iff.mp hconflict.baseline
  apply hconflict.differ
  rw [← hnew, ← hold, hkinds path d e hd he]

/-- A record merged with what it was merged to before reports no conflict. -/
theorem conflicts_report_record {fresh : Record} (h : fresh.Ordered) (base : Option Record) :
    (report placeholder (some (record placeholder base fresh)) fresh).conflicts = [] := by
  apply conflicts_report_of_kinds placeholder h
  intro path old new hold hnew
  cases base with
  | none =>
      rw [record, hnew] at hold
      rw [Option.some.inj hold]
  | some base =>
      rw [at?_record, hnew, Option.map_some] at hold
      rw [← Option.some.inj hold, kind_withBase]

/-! ## Merges that change nothing -/

theorem entry_eq_self (fresh : Entry) : fresh.Ordered → ∀ old,
    (∀ path o n, old.at? path = some o → fresh.at? path = some n → n.kind ≠ .type →
      entry placeholder o n = n) →
    entry placeholder old fresh = fresh := by
  induction fresh using Entry.inductionOn with
  | type info members ih =>
      intro h old hsame
      obtain ⟨hasc, hmem⟩ := Entry.ordered_type.mp h
      cases old with
      | type _ ms =>
          have htable : table placeholder ms members = members := by
            rw [table_congr placeholder (fun _ e => e), List.map_id']
            intro m hm
            cases hfind : Table.find? ms m.1 with
            | none => rfl
            | some o =>
                refine ih m hm (hmem m hm) o fun path a b ha hb => hsame (m.1 :: path) a b ?_ ?_
                · rw [Entry.at?_cons, Entry.members, hfind, Option.bind_some, ha]
                · rw [Entry.at?_cons, Entry.members, Table.find?_of_mem hasc hm, Option.bind_some,
                    hb]
          rw [entry, htable]
      | _ => rfl
  | _ =>
      intro _ old hsame
      exact hsame [] old _ rfl rfl (by simp [Entry.kind])

/-- A merge changes nothing but the three fields that are counted. -/
theorem record_eq_self_iff {fresh : Record} (h : fresh.Ordered) (base : Record) :
    record placeholder (some base) fresh = fresh ↔ ∀ path,
      ¬ Record.DiffersAt Entry.overloads? (record placeholder (some base) fresh) fresh path ∧
      ¬ Record.DiffersAt Entry.callableDoc? (record placeholder (some base) fresh) fresh path ∧
      ¬ Record.DiffersAt Entry.valueType? (record placeholder (some base) fresh) fresh path := by
  constructor
  · intro hsame path
    rw [hsame]
    exact ⟨fun hne => hne rfl, fun hne => hne rfl, fun hne => hne rfl⟩
  · intro hfields
    have hentry : entry placeholder base.asType fresh.asType = fresh.asType := by
      refine entry_eq_self placeholder _ (Record.ordered_asType.mpr h) _ ?_
      intro path old new hold hnew hleaf
      by_cases hne : path = []
      · rw [hne, Entry.at?_nil] at hnew
        rw [← Option.some.inj hnew] at hleaf
        exact absurd rfl hleaf
      · rw [base.at?_asType hne] at hold
        rw [fresh.at?_asType hne] at hnew
        obtain ⟨hoverloads, hdoc, htype⟩ := hfields path
        simp only [Record.DiffersAt, at?_record, hold, hnew, Option.map_some, Option.bind_some,
          withBase_some, not_not] at hoverloads hdoc htype
        exact (meeting placeholder old new).eq_of_fields hleaf hoverloads hdoc htype
    have htable : table placeholder base.members fresh.members = fresh.members :=
      (Entry.type.inj hentry).2
    rw [record, htable]

theorem count_eq_zero_iff {differs : List String → Prop} {count : ℕ}
    (hcount : {path | differs path}.encard = count) : count = 0 ↔ ∀ path, ¬ differs path := by
  have hcast : (count : ℕ∞) = 0 ↔ count = 0 := Nat.cast_eq_zero
  rw [← hcast, ← hcount, Set.encard_eq_zero, Set.eq_empty_iff_forall_notMem]
  rfl

theorem isNoop_report_iff {fresh : Record} (h : fresh.Ordered) (base : Record) :
    (report placeholder (some base) fresh).isNoop = true ↔
      record placeholder (some base) fresh = fresh ∧
        ∀ path new old, ¬ ConflictAt base fresh path new old := by
  simp only [Report.isNoop, Bool.and_eq_true, List.isEmpty_iff, beq_iff_eq]
  rw [conflicts_eq_nil_iff placeholder h, record_eq_self_iff placeholder h,
    count_eq_zero_iff (encard_overloads placeholder h base),
    count_eq_zero_iff (encard_docs placeholder h base),
    count_eq_zero_iff (encard_types placeholder h base)]
  simp only [forall_and]
  constructor
  · rintro ⟨⟨⟨hconflicts, hoverloads⟩, hdocs⟩, htypes⟩
    exact ⟨⟨hoverloads, hdocs, htypes⟩, hconflicts⟩
  · rintro ⟨⟨hoverloads, hdocs, htypes⟩, hconflicts⟩
    exact ⟨⟨⟨hconflicts, hoverloads⟩, hdocs⟩, htypes⟩

/-- The report of a merge. Its counts are the numbers of paths at which the merged record differs
from the fresh one in overloads, in the doc text of a callable and in the type of a value. Its
conflicts are the paths with entries of two kinds, each of them once and in lexicographic order. It
is empty exactly if the merge gives the fresh record and no kinds differ. -/
theorem report_exact {fresh : Record} (h : fresh.Ordered) (base : Record) :
    {path | Record.DiffersAt Entry.overloads? (record placeholder (some base) fresh) fresh
        path}.encard = (report placeholder (some base) fresh).overloadsAdopted ∧
      {path | Record.DiffersAt Entry.callableDoc? (record placeholder (some base) fresh) fresh
        path}.encard = (report placeholder (some base) fresh).docsAdopted ∧
      {path | Record.DiffersAt Entry.valueType? (record placeholder (some base) fresh) fresh
        path}.encard = (report placeholder (some base) fresh).typesNarrowed ∧
      (∃ found : List (List String × Kind × Kind),
        (found.map Prod.fst).Pairwise (List.Lex (· < ·)) ∧
        (∀ path new old, (path, new, old) ∈ found ↔ ConflictAt base fresh path new old) ∧
        (report placeholder (some base) fresh).conflicts =
          found.map fun c => ⟨dotted c.1, c.2.1, c.2.2⟩) ∧
      ((report placeholder (some base) fresh).isNoop = true ↔
        record placeholder (some base) fresh = fresh ∧
          ∀ path new old, ¬ ConflictAt base fresh path new old) := by
  exact ⟨encard_overloads placeholder h base, encard_docs placeholder h base,
    encard_types placeholder h base, exists_conflicts placeholder h base,
    isNoop_report_iff placeholder h base⟩

/-- A type with a method that has a doc text and an overload, a property and one more method. -/
def knownRecord : Record where
  members := [("A", .type {} [
    ("c", .method {}),
    ("f", .method { doc := some "f()", overloads := [{ params := [], returns := ⟨"m", "A"⟩ }] }),
    ("p", .property { type := ⟨"m", "A"⟩ })])]

/-- The same type, of which only the names are known and one member is of another kind. -/
def namedRecord : Record where
  members := [("A", .type {} [
    ("c", .data { type := ⟨"m", "object"⟩ }),
    ("f", .method {}),
    ("p", .property { type := ⟨"m", "object"⟩ })])]

theorem report_exact_namedRecord :
    namedRecord.Ordered ∧
      report ⟨"m", "object"⟩ (some knownRecord) namedRecord =
        ⟨[⟨"A.c", .data, .method⟩], 1, 1, 1⟩ ∧
      {path | Record.DiffersAt Entry.overloads?
        (record ⟨"m", "object"⟩ (some knownRecord) namedRecord) namedRecord path}.encard = 1 := by
  have hordered : namedRecord.Ordered := by
    simp only [namedRecord, Record.Ordered, Entry.OrderedTable, Entry.Ordered, Table.Ascending,
      Table.keys]
    decide
  have hreport : report ⟨"m", "object"⟩ (some knownRecord) namedRecord =
      ⟨[⟨"A.c", .data, .method⟩], 1, 1, 1⟩ := by decide
  refine ⟨hordered, hreport, ?_⟩
  rw [(report_exact ⟨"m", "object"⟩ hordered knownRecord).1, hreport]
  rfl

end Merge
end CompletionDb
