import CompletionDb.Proofs.ExtractedRecords
import CompletionDb.Proofs.ExtractionByPath
import CompletionDb.Proofs.GenerationTrace

/-!
# Which types of a database are hidden

The flag for hidden types is set when a well-known type is put among the members of the builtin
module, and nowhere else: a class that is met inside another one is never hidden, however it was
reached, and a merge takes the flag from the fresh record alone. So in the records that a run writes
the hidden types are exactly the well-known ones, at the top of the builtin module. `TypeAt` names
the type records in a record one by one, with their paths; what is said of the flag is said of each
of them.
-/
namespace CompletionDb

/-! ## Type records -/

/-- A type record in an entry, at a path of member names. Alternatives stand at the path of their
entry. -/
inductive Entry.TypeAt : Entry → List String → TypeInfo → Prop
  | self (info : TypeInfo) (members : Table Entry) : TypeAt (.type info members) [] info
  | member {own info : TypeInfo} {members : Table Entry} {name : String} {e : Entry}
      {path : List String} : (name, e) ∈ members → TypeAt e path info →
      TypeAt (.type own members) (name :: path) info
  | alternative {es : List Entry} {e : Entry} {path : List String} {info : TypeInfo} : e ∈ es →
      TypeAt e path info → TypeAt (.multiple es) path info

/-- A type record in a record, at a path of member names. -/
inductive Record.TypeAt (r : Record) : List String → TypeInfo → Prop
  | member {name : String} {e : Entry} {path : List String} {info : TypeInfo} :
      (name, e) ∈ r.members → e.TypeAt path info → r.TypeAt (name :: path) info

theorem Entry.TypeAt.kind {e : Entry} {path : List String} {info : TypeInfo}
    (h : e.TypeAt path info) : e.kind = .type ∨ e.kind = .multiple := by
  cases h with
  | self | member => exact .inl rfl
  | alternative => exact .inr rfl

namespace Merge
variable {placeholder : TypeName}

/-- What holds of the members of a fresh table, each over any older entry, holds of the merged
table. -/
theorem typeAt_of_table {base fresh : Table Entry} {info : TypeInfo} {path : List String}
    (hentry : ∀ m ∈ fresh, ∀ old, (entry placeholder old m.2).TypeAt path info →
      m.2.TypeAt path info) {name : String} {e : Entry}
    (hmem : (name, e) ∈ table placeholder base fresh) (h : e.TypeAt path info) :
    ∃ e', (name, e') ∈ fresh ∧ e'.TypeAt path info := by
  rw [table_eq_map] at hmem
  obtain ⟨m, hm, heq⟩ := List.mem_map.mp hmem
  cases heq
  refine ⟨m.2, hm, ?_⟩
  cases hold : base.find? m.1 with
  | none => simpa [hold] using h
  | some old => exact hentry m hm old (by simpa [hold] using h)

/-- The type records of a merged entry are those of the fresh one. -/
theorem typeAt_of_entry {old fresh : Entry} {path : List String} {info : TypeInfo}
    (h : (entry placeholder old fresh).TypeAt path info) : fresh.TypeAt path info := by
  induction fresh using Entry.inductionOn generalizing old path with
  | type own members ih =>
      cases old with
      | type _ oldMembers =>
          rw [entry] at h
          cases h with
          | self => exact .self info members
          | member hmem hbelow =>
              obtain ⟨e, he, hat⟩ := typeAt_of_table (fun m hm _ => ih m hm) hmem hbelow
              exact .member he hat
      | _ => exact h
  | multiple es _ => cases old <;> exact h
  | _ =>
      have hkind := h.kind
      rw [kind_entry] at hkind
      rcases hkind with hkind | hkind <;> cases hkind

theorem typeAt_of_record {base : Option Record} {fresh : Record} {path : List String}
    {info : TypeInfo} (h : (record placeholder base fresh).TypeAt path info) :
    fresh.TypeAt path info := by
  cases base with
  | none => exact h
  | some base =>
      cases h with
      | member hmem hbelow =>
          obtain ⟨e, he, hat⟩ := typeAt_of_table (fun m _ _ => typeAt_of_entry) hmem hbelow
          exact .member he hat

/-- A type at the top of the fresh record stays there, with its own fields. -/
theorem typeAt_record_top (base : Option Record) {fresh : Record} {name : String}
    {info : TypeInfo} {members : Table Entry}
    (h : fresh.members.find? name = some (.type info members)) :
    (record placeholder base fresh).TypeAt [name] info := by
  cases base with
  | none => exact .member (Table.mem_of_find? h) (.self info members)
  | some base =>
      have hfind := find?_table placeholder base.members fresh.members name
      rw [h, Option.map_some] at hfind
      refine .member (Table.mem_of_find? hfind) ?_
      cases base.members.find? name with
      | none => exact .self info members
      | some old => cases old <;> exact .self info _

end Merge

/-! ## Extraction -/

/-- What is found after a row of inserts: the value inserted under the name, or what was there. -/
theorem Table.find?_foldl_insert {α β : Type} (value : α → β) {added : List (String × α)}
    (hdistinct : (added.map Prod.fst).Nodup) (table : Table β) (name : String) :
    (added.foldl (fun table p => table.insert p.1 (value p.2)) table).find? name =
      ((added.lookup name).map value).or (table.find? name) := by
  induction added generalizing table with
  | nil => rfl
  | cons p added ih =>
      obtain ⟨key, a⟩ := p
      rw [List.map_cons, List.nodup_cons] at hdistinct
      rw [List.foldl_cons, ih hdistinct.2, Table.find?_insert, Table.lookup_cons]
      by_cases hname : name = key
      · subst hname
        have hnone : added.lookup name = none := by
          rw [List.lookup_eq_none_iff]
          intro p hp
          have hne : name ≠ p.1 := fun heq =>
            hdistinct.1 (List.mem_map.mpr ⟨p, hp, heq.symm⟩)
          simpa using hne
        rw [if_pos rfl, if_pos rfl, hnone]
        rfl
      · rw [if_neg hname, if_neg hname]

namespace Extraction
variable {s : Snapshot} {c : Settings}

/-- A class is hidden only where its entry was asked for so, and then at the top. -/
theorem hidden_of_typeAt {r : Resolver} {room : ℕ} {chain : List TypeName} {hidden : Bool} {id : Id}
    {path : List String} {info : TypeInfo}
    (h : (entryIn s c r room chain hidden id).TypeAt path info) :
    (s.category id).isClass ∧ info.hidden = (hidden && path.isEmpty) := by
  induction room generalizing chain hidden id path with
  | zero =>
      rw [entryIn] at h
      split_ifs at h <;> cases h
  | succ room ih =>
      rw [entryIn] at h
      split_ifs at h with _ hclass
      · cases h
      · cases h
      · refine ⟨hclass, ?_⟩
        cases h with
        | self => simp [typeInfo]
        | member hmem hbelow =>
            rcases mem_memberEntries hmem with heq | ⟨member, heq⟩
            · dsimp only at heq
              rw [heq] at hbelow
              cases hbelow
            · dsimp only at heq
              rw [heq] at hbelow
              simpa using (ih hbelow).2
      · cases h
      · cases h
      · cases h

/-- The entry of a class in a namespace is a type. -/
theorem entry_of_isClass (hdepth : 1 ≤ c.maxTypeDepth) {id : Id} (hclass : (s.category id).isClass)
    (hidden : Bool) : ∃ members, entry s c hidden id = .type (typeInfo s hidden id) members := by
  have hexp : s.Expanded c.maxTypeDepth [] id := ⟨hclass, List.forall_mem_nil _, hdepth⟩
  exact ⟨_, entryAfter_of_expanded hexp⟩

/-- Only classes can be hidden. -/
theorem entry_of_not_isClass {id : Id} (hclass : ¬ (s.category id).isClass) (hidden : Bool) :
    entry s c hidden id = entry s c false id := by
  unfold entry entryBy
  rw [entryIn.eq_def, entryIn.eq_def]
  simp [hclass]

theorem find?_recordOf (n : Namespace) (name : String) :
    (recordOf s c n).members.find? name = (n.members.find? name).map (entry s c false) :=
  Table.find?_map (fun _ => entry s c false) n.members name

/-- The well-known object that the builtin module lists under a name. -/
def listed? (s : Snapshot) (name : String) : Option Id :=
  if name = "function" then some s.wellKnown.function
  else if name = "builtin_function" then some s.wellKnown.builtinFunction
  else if name = "builtin_method_descriptor" then some s.wellKnown.builtinMethod
  else if name = "generator" then some s.wellKnown.generator
  else if name = "NoneType" then some s.wellKnown.noneType
  else if name = "ellipsis" then some s.wellKnown.ellipsis
  else none

theorem lookup_hiddenEntries (s : Snapshot) (name : String) :
    s.wellKnown.hiddenEntries.lookup name = listed? s name := by
  simp only [WellKnown.hiddenEntries, Table.lookup_cons, List.lookup_nil, listed?]

/-- It is listed in place of a member of the same name. -/
theorem find?_withHidden (r : Record) (name : String) :
    (withHidden s c r).members.find? name =
      ((listed? s name).map (entry s c true)).or (r.members.find? name) := by
  have hdistinct : (s.wellKnown.hiddenEntries.map Prod.fst).Nodup := by
    simp [WellKnown.hiddenEntries]
  rw [← lookup_hiddenEntries]
  exact Table.find?_foldl_insert (entry s c true) hdistinct r.members name

/-- A path to a well-known object at the top of the builtin module, if that is a class. -/
def ListsType (s : Snapshot) (path : List String) : Prop :=
  ∃ name id, path = [name] ∧ listed? s name = some id ∧ (s.category id).isClass

theorem typeAt_recordOf {n : Namespace} {path : List String} {info : TypeInfo}
    (h : (recordOf s c n).TypeAt path info) : info.hidden = false := by
  cases h with
  | member hmem hbelow =>
      obtain ⟨⟨name, id⟩, -, heq⟩ := List.mem_map.mp hmem
      cases heq
      simpa using (hidden_of_typeAt hbelow).2

theorem typeAt_withHidden {n : Namespace}
    (hasc : (withHidden s c (recordOf s c n)).members.Ascending) {path : List String}
    {info : TypeInfo} (h : (withHidden s c (recordOf s c n)).TypeAt path info) :
    info.hidden = true ↔ ListsType s path := by
  cases h with
  | @member name e path info hmem hbelow =>
      have hfind := Table.find?_of_mem hasc hmem
      rw [find?_withHidden, find?_recordOf] at hfind
      cases hlisted : listed? s name with
      | none =>
          rw [hlisted, Option.map_none, Option.none_or] at hfind
          obtain ⟨id, -, rfl⟩ := Option.map_eq_some_iff.mp hfind
          have hplain : info.hidden = false := by simpa using (hidden_of_typeAt hbelow).2
          have hnone : ¬ ListsType s (name :: path) := by
            rintro ⟨other, id, hpath, hid, -⟩
            rw [← (List.cons.inj hpath).1, hlisted] at hid
            cases hid
          simp [hplain, hnone]
      | some id =>
          rw [hlisted] at hfind
          obtain rfl : entry s c true id = e := by simpa using hfind
          obtain ⟨hclass, hhidden⟩ := hidden_of_typeAt hbelow
          rw [hhidden, Bool.true_and, List.isEmpty_iff]
          constructor
          · rintro rfl
            exact ⟨name, id, rfl, hlisted, hclass⟩
          · rintro ⟨other, _, hpath, -⟩
            exact (List.cons.inj hpath).2

/-- What is hidden in the merged record of a module, and what the members of the builtin module are
before the merge. -/
structure HiddenAsListed (s : Snapshot) (c : Settings) (module : String) (fresh merged : Record) :
    Prop where
  flag : ∀ path info, merged.TypeAt path info →
    (info.hidden = true ↔ module = c.builtinModule ∧ ListsType s path)
  present : module = c.builtinModule → ∀ path, ListsType s path → ∃ info, merged.TypeAt path info
  listed : module = c.builtinModule → ∀ name id, listed? s name = some id →
    fresh.members.find? name = some (entry s c (s.category id).isClass id)
  others : module = c.builtinModule → ∃ n, s.modules.find? module = some n ∧
    ∀ name, listed? s name = none →
      fresh.members.find? name = (n.members.find? name).map (entry s c false)

theorem hiddenAsListed_builtin (hs : s.Ordered) (hdepth : 1 ≤ c.maxTypeDepth) {fresh : Record}
    (h : builtinRecord? s c c.builtinModule = some fresh) (placeholder : TypeName)
    (base : Option Record) :
    HiddenAsListed s c c.builtinModule fresh (Merge.record placeholder base fresh) := by
  obtain ⟨plain, hplain, rfl⟩ := Option.map_eq_some_iff.mp h
  obtain ⟨n, hn, rfl⟩ := Option.map_eq_some_iff.mp hplain
  have hasc := (regular_withHidden hs (regular_record? hs hplain)).ordered.1
  constructor
  · intro path info hat
    rw [typeAt_withHidden hasc (Merge.typeAt_of_record hat)]
    simp
  · rintro - path ⟨name, id, rfl, hlisted, hclass⟩
    obtain ⟨members, hentry⟩ := entry_of_isClass hdepth hclass true
    have hfind : (withHidden s c (recordOf s c n)).members.find? name =
        some (.type (typeInfo s true id) members) := by
      rw [find?_withHidden, hlisted, Option.map_some, hentry, Option.some_or]
    exact ⟨_, Merge.typeAt_record_top base hfind⟩
  · intro _ name id hlisted
    rw [find?_withHidden, hlisted, Option.map_some, Option.some_or]
    by_cases hclass : (s.category id).isClass
    · rw [hclass]
    · rw [entry_of_not_isClass hclass, entry_of_not_isClass hclass (s.category id).isClass]
  · refine fun _ => ⟨n, hn, fun name hlisted => ?_⟩
    rw [find?_withHidden, hlisted, find?_recordOf, Option.map_none, Option.none_or]

theorem hiddenAsListed_of_ne {module : String} (hne : module ≠ c.builtinModule) {fresh : Record}
    (h : record? s c module = some fresh) (placeholder : TypeName) (base : Option Record) :
    HiddenAsListed s c module fresh (Merge.record placeholder base fresh) := by
  obtain ⟨n, -, rfl⟩ := Option.map_eq_some_iff.mp h
  constructor
  · intro path info hat
    simp [typeAt_recordOf (Merge.typeAt_of_record hat), hne]
  all_goals exact fun heq => absurd heq hne

theorem hiddenAsListed (hs : s.Ordered) (hdepth : 1 ≤ c.maxTypeDepth) {module : String}
    {fresh : Record} {lines : List LogLine}
    (h : (provider s c).extracted c module = .ok (fresh, lines)) (placeholder : TypeName)
    (base : Option Record) :
    HiddenAsListed s c module fresh (Merge.record placeholder base fresh) := by
  by_cases hbuiltin : module = c.builtinModule
  · subst hbuiltin
    rw [Provider.extracted_builtin] at h
    exact hiddenAsListed_builtin hs hdepth (eq_some_of_found h) placeholder base
  · rw [Provider.extracted_of_ne hbuiltin] at h
    exact hiddenAsListed_of_ne hbuiltin (eq_some_of_found h) placeholder base

end Extraction

/-! ## Runs -/

namespace Generation
open Disk Extraction

/-- Whatever the baseline holds and whatever fails, every record that a run writes has exactly the
well-known types of the builtin module hidden, and the other members of that module are as in any
other. -/
theorem generate_hides_listed {d : Data} {s : Snapshot} (hload : Snapshot.ofDocument d = .ok s)
    {c : Settings} (hdepth : 1 ≤ c.maxTypeDepth) {out : Store} {baseline : Option Store}
    {w w' : World} {r : Except Failure Generated}
    (h : (generate host (provider s c) c out baseline).run w = (r, w')) :
    ∃ attempts, Chain ⟨out, baseline, c.placeholder⟩ ((provider s c).extracted c) w.disk attempts
        w'.disk ∧ Reported ((provider s c).names c) attempts r ∧
      ∀ a ∈ attempts, ∀ n, a.outcome = .ok n → ∃ fresh merged,
        ((provider s c).extracted c a.module).toOption.map Prod.fst = some fresh ∧
        merged = Merge.record c.placeholder (baseline.bind (·.stored? a.before a.module)) fresh ∧
        a.after.read (out.pathFor a.module) = .ok (Archive.encode merged) ∧
        HiddenAsListed s c a.module fresh merged := by
  have hs := Snapshot.ordered_of_ofDocument hload
  obtain ⟨attempts, hchain, hreported⟩ := chain_of_generate h
  refine ⟨attempts, hchain, hreported, ?_⟩
  intro a ha n hn
  obtain ⟨fresh, lines, hextracted, hread⟩ := (hchain.ends a ha).read_of_ok hn
  refine ⟨fresh, _, ?_, rfl, hread, hiddenAsListed hs hdepth hextracted _ _⟩
  rw [hextracted]
  rfl

/-- A snapshot document with a class that the builtin module has as a member and lists as a
well-known type as well, over a value of that name; another class is a member of it. -/
def aliasedDocument : Data :=
  .object [
    ("builtin_modules", .list [.text "m"]),
    ("well_known", .object (("function", .text "F") ::
      ["root_object", "builtin_function", "builtin_method", "generator", "none", "ellipsis"].map
        (·, .text "v"))),
    ("modules", .object [
      ("builtins", .object [("members", .object [("a", .text "F"), ("function", .text "v")])]),
      ("m", .object [("members", .object [("f", .text "F")])])]),
    ("objects", .object [
      ("F", .object [("category", .text "class"), ("module", .text "m"), ("name", .text "F"),
        ("members", .object [("inner", .text "G")])]),
      ("G", .object [("category", .text "class"), ("module", .text "m"), ("name", .text "G")]),
      ("v", .object [("category", .text "instance")])])]

/-- A baseline that has the flag where it does not belong. -/
def flaggedWorld : World where
  disk := ⟨[(["old"], .directory), (["old", "builtins.idb"], .file (Archive.encode
    ⟨none, [("a", .type { hidden := true } [("inner", .type { hidden := true } [])]),
      ("function", .type {} [])]⟩))], []⟩

theorem generate_hides_listed_aliased :
    ∃ s w', Snapshot.ofDocument aliasedDocument = .ok s ∧ ListsType s ["function"] ∧
      (generate host (provider s {}) {} ⟨"new"⟩ (some ⟨"old"⟩)).run flaggedWorld =
        (.ok ⟨["builtins", "m"], [], 0⟩, w') ∧
      ∃ attempts, Reported ((provider s {}).names {}) attempts (.ok ⟨["builtins", "m"], [], 0⟩) ∧
        ∀ a ∈ attempts, ∀ n, a.outcome = .ok n → ∃ fresh merged,
          a.after.read (Store.pathFor ⟨"new"⟩ a.module) = .ok (Archive.encode merged) ∧
          HiddenAsListed s {} a.module fresh merged := by
  have hrun : ((Snapshot.ofDocument aliasedDocument).toOption.map fun s =>
      ((generate host (provider s {}) {} ⟨"new"⟩ (some ⟨"old"⟩)).run flaggedWorld).1) =
        some (.ok ⟨["builtins", "m"], [], 0⟩) := by decide +kernel
  have hclass : ((Snapshot.ofDocument aliasedDocument).toOption.bind fun s =>
      (listed? s "function").map fun id => (s.category id).isClass) = some true := by
    decide +kernel
  cases hload : Snapshot.ofDocument aliasedDocument with
  | error e =>
      rw [hload] at hrun
      cases hrun
  | ok s =>
      rw [hload] at hrun hclass
      obtain ⟨id, hlisted, hid⟩ : ∃ id, listed? s "function" = some id ∧ (s.category id).isClass =
        true := Option.map_eq_some_iff.mp hclass
      obtain ⟨⟨r, w'⟩, hworld⟩ : ∃ last,
          (generate host (provider s {}) {} ⟨"new"⟩ (some ⟨"old"⟩)).run flaggedWorld = last :=
        ⟨_, rfl⟩
      obtain rfl : r = .ok ⟨["builtins", "m"], [], 0⟩ := by
        simpa [Except.toOption, hworld] using hrun
      obtain ⟨attempts, -, hreported, hwritten⟩ :=
        generate_hides_listed hload (show 1 ≤ Settings.maxTypeDepth {} by decide) hworld
      refine ⟨s, w', rfl, ⟨_, id, rfl, hlisted, hid⟩, hworld, attempts, hreported, ?_⟩
      intro a ha n hn
      obtain ⟨fresh, merged, -, -, hread, hhidden⟩ := hwritten a ha n hn
      exact ⟨fresh, merged, hread, hhidden⟩

end Generation
end CompletionDb
