import CompletionDb.Proofs.GenerationTrace
import CompletionDb.Snapshot.Fault

/-!
# Where a run leaves files

The file of a module lies where its name leads to from the directory of the store, and its temporary
file beside it. A run changes these files for the names that it tries and no others. If no name has
a slash, they all lie directly in the directory and no two names share one. A slash takes both away:
names come from the snapshot as they are, so a name may lead out of the directory, and two spellings
of one path are two names with one file.
-/
namespace CompletionDb

namespace Generation
open Disk

/-- The files of some modules and their temporary files. -/
def placesOf (s : Store) (d : Disk) (modules : List String) : Set Place :=
  {p | ∃ module ∈ modules, p = s.placeOn d module ∨ p = s.tempOn d module}

theorem Attempt.Ends.frame {t : Target} {extracted : Extracted} {a : Attempt}
    (h : a.Ends t extracted) : a.before.Frame (placesOf t.out a.before [a.module]) a.after := by
  cases h with
  | missing => exact .refl _ _
  | unsaved e hunsaved =>
      refine hunsaved.frame.mono ?_
      intro p hp
      exact ⟨_, List.mem_singleton_self _, .inr (Set.mem_singleton_iff.mp hp)⟩
  | saved hsaved =>
      refine hsaved.frame.mono ?_
      intro p hp
      rw [Set.mem_insert_iff, Set.mem_singleton_iff] at hp
      exact ⟨_, List.mem_singleton_self _, hp.symm⟩

/-- Directories stay where they are during a chain, so the places can be told on its first disk. -/
theorem Chain.frame {t : Target} {extracted : String → Extracted} {d d' : Disk}
    {attempts : List Attempt} (h : Chain t extracted d attempts d') :
    d.Frame (placesOf t.out d (attempts.map Attempt.module)) d' := by
  induction h with
  | nil => exact .refl _ _
  | @cons a rest d d' hbefore hends hrest ih =>
      subst hbefore
      have hfirst := hends.frame
      refine (hfirst.mono ?_).trans (ih.mono ?_)
      · rintro p ⟨module, hmem, hp⟩
        exact ⟨module, List.mem_cons.mpr (.inl (List.mem_singleton.mp hmem)), hp⟩
      · rintro p ⟨module, hmem, hp⟩
        refine ⟨module, List.mem_cons_of_mem _ hmem, ?_⟩
        rw [Store.placeOn, Store.tempOn, hfirst.keeps.placeOf, hfirst.keeps.placeOf] at hp
        exact hp

/-- A run changes files only where the names that it tries lead to. Where none of these has a slash,
every changed file lies directly in the directory of the store, and no two names share a file. -/
theorem generate_changes_tried_places {p : Provider} {c : Settings} {out : Store}
    {baseline : Option Store} {w w' : World} {r : Except Failure Generated}
    (h : (generate host p c out baseline).run w = (r, w')) :
    (∀ place, w'.disk.file? place ≠ w.disk.file? place → ∃ module ∈ p.names c,
      place = out.placeOn w.disk module ∨ place = out.tempOn w.disk module) ∧
    ((∀ module ∈ p.names c, '/' ∉ module.toList) →
      (∀ place, w'.disk.file? place ≠ w.disk.file? place →
        ∃ name, place = w.disk.placeOf out.root ++ [name]) ∧
      ∀ a ∈ p.names c, ∀ b ∈ p.names c,
        out.placeOn w.disk a = out.placeOn w.disk b → a = b) := by
  obtain ⟨attempts, hchain, hreported⟩ := chain_of_generate h
  have hchanged : ∀ place, w'.disk.file? place ≠ w.disk.file? place → ∃ module ∈ p.names c,
      place = out.placeOn w.disk module ∨ place = out.tempOn w.disk module := by
    intro place hne
    by_contra hnone
    refine hne (hchain.frame.files place ?_)
    rintro ⟨module, hmem, hplace⟩
    exact hnone ⟨module, hreported.sublist.mem hmem, hplace⟩
  refine ⟨hchanged, fun hslash => ⟨?_, ?_⟩⟩
  · intro place hne
    obtain ⟨module, hmem, hplace | htemp⟩ := hchanged place hne
    · exact ⟨_, hplace.trans (out.placeOn_eq w.disk (hslash module hmem))⟩
    · exact ⟨_, htemp.trans (out.tempOn_eq w.disk (hslash module hmem))⟩
  · exact fun a ha b hb => Store.placeOn_inj (hslash a ha) (hslash b hb)

/-- A provider of modules with names that are odd and have no slash. -/
def oddProvider : Provider where
  builtinModules := ["..", "", "a.b", ".builtins"]
  extractBuiltin _ := .ok ({}, [])
  extract _ := .ok ({}, [])

theorem generate_changes_tried_places_odd :
    ∃ w', (generate host oddProvider {} ⟨"x/.."⟩ none).run {} =
        (.ok ⟨["builtins", "..", "", "a.b", ".builtins"], [], 0⟩, w') ∧
      w'.disk.file? ["...idb"] ≠ none ∧
      (∀ module ∈ oddProvider.names {}, '/' ∉ module.toList) ∧
      (∀ place, w'.disk.file? place ≠ Disk.file? {} place →
        ∃ name, place = Disk.placeOf {} "x/.." ++ [name]) ∧
      ∀ a ∈ oddProvider.names {}, ∀ b ∈ oddProvider.names {},
        Store.placeOn ⟨"x/.."⟩ {} a = Store.placeOn ⟨"x/.."⟩ {} b → a = b := by
  have hrun : ((generate host oddProvider {} ⟨"x/.."⟩ none).run {}).1 =
      .ok ⟨["builtins", "..", "", "a.b", ".builtins"], [], 0⟩ := by decide +kernel
  have hfile : ((generate host oddProvider {} ⟨"x/.."⟩ none).run {}).2.disk.file? ["...idb"] ≠
      none := by decide +kernel
  have hslash : ∀ module ∈ oddProvider.names {}, '/' ∉ module.toList := by decide +kernel
  obtain ⟨⟨r, w'⟩, hworld⟩ : ∃ last, (generate host oddProvider {} ⟨"x/.."⟩ none).run {} = last :=
    ⟨_, rfl⟩
  rw [hworld] at hrun hfile
  subst hrun
  obtain ⟨hinside, hdistinct⟩ := (generate_changes_tried_places hworld).2 hslash
  exact ⟨w', hworld, hfile, hslash, hinside, hdistinct⟩

/-- A snapshot document with modules whose names lead out of a directory or to the same file. -/
def slashedDocument : Data :=
  .object [
    ("builtin_modules", .list [.text "../x", .text "x", .text "./x"]),
    ("well_known", .object (["root_object", "function", "builtin_function", "builtin_method",
      "generator", "none", "ellipsis"].map (·, .text "o"))),
    ("modules", .object (["../x", "./x", "builtins", "x"].map (·, .object []))),
    ("objects", .object [("o", .object [("category", .text "class"), ("module", .text "builtins"),
      ("name", .text "object")])])]

def slashedWorld : World where
  disk := ⟨[(["x.idb"], .file [0])], []⟩

/-- A run may overwrite a file outside the directory of its store, and two of its modules may share
a file. -/
theorem generate_leaves_directory :
    ∃ s w', Snapshot.ofDocument slashedDocument = .ok s ∧ Settings.check {} = .ok {} ∧
      (generate host (Extraction.provider s {}) {} ⟨"db"⟩ none).run slashedWorld =
        (.ok ⟨["builtins", "../x", "x", "./x"], [], 0⟩, w') ∧
      (w'.disk.file? ["x.idb"] ≠ slashedWorld.disk.file? ["x.idb"] ∧
        ¬ ∃ name, ["x.idb"] = slashedWorld.disk.placeOf "db" ++ [name]) ∧
      "x" ≠ "./x" ∧ Store.placeOn ⟨"db"⟩ slashedWorld.disk "x" =
        Store.placeOn ⟨"db"⟩ slashedWorld.disk "./x" := by
  have hrun : ((Snapshot.ofDocument slashedDocument).toOption.map fun s =>
      ((generate host (Extraction.provider s {}) {} ⟨"db"⟩ none).run slashedWorld).1) =
        some (.ok ⟨["builtins", "../x", "x", "./x"], [], 0⟩) := by decide +kernel
  have hfile : ((Snapshot.ofDocument slashedDocument).toOption.bind fun s =>
      ((generate host (Extraction.provider s {}) {} ⟨"db"⟩ none).run slashedWorld).2.disk.file?
        ["x.idb"]) ≠ some [0] := by decide +kernel
  cases hload : Snapshot.ofDocument slashedDocument with
  | error e =>
      rw [hload] at hrun
      cases hrun
  | ok s =>
      rw [hload] at hrun hfile
      obtain ⟨⟨r, w'⟩, hworld⟩ : ∃ last,
          (generate host (Extraction.provider s {}) {} ⟨"db"⟩ none).run slashedWorld = last :=
        ⟨_, rfl⟩
      obtain rfl : r = .ok ⟨["builtins", "../x", "x", "./x"], [], 0⟩ := by
        simpa [Except.toOption, hworld] using hrun
      refine ⟨s, w', rfl, rfl, hworld, ⟨?_, ?_⟩, by decide, by decide +kernel⟩
      · rw [show slashedWorld.disk.file? ["x.idb"] = some [0] by decide +kernel]
        simpa [Except.toOption, hworld] using hfile
      · rintro ⟨name, hname⟩
        rw [show slashedWorld.disk.placeOf "db" = ["db"] by decide +kernel] at hname
        simp at hname

end Generation
end CompletionDb
