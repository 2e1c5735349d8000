import CompletionDb.Proofs.StoreFiles

/-!
# The directory of a store

Once a file of a store has been found, the path of the store leads to a directory, and it does so
from then on. In a directory that is there, everything about a file can be told from the length of
its name and from the node at its place: whether it is found, whether it can be written, and why
not. Making the directory again does nothing.

Single dots in a path lead nowhere, so they may be left out; this matters because temporary files
are reached by a path without them.
-/
namespace CompletionDb

namespace Disk

/-! ## Walking down -/

theorem descend_append (d : Disk) (dir : Place) (above below : List String) :
    d.descend dir (above ++ below) =
      (d.descend dir above).bind fun place => d.descend place below := by
  induction above generalizing dir with
  | nil => rfl
  | cons part above ih =>
      rw [List.cons_append, descend, descend]
      cases d.child dir part with
      | error e => rfl
      | ok next =>
          rcases next with ⟨place, n⟩
          cases n with
          | directory => exact ih place
          | file bytes => rfl

theorem descend_filter (d : Disk) (dir : Place) (parts : List String) :
    d.descend dir (parts.filter (· != ".")) = d.descend dir parts := by
  induction parts generalizing dir with
  | nil => rfl
  | cons part parts ih =>
      by_cases hdot : part = "."
      · have hstay : d.child dir "." = .ok (dir, .directory) := rfl
        rw [hdot, List.filter_cons_of_neg (by decide), descend, hstay]
        exact ih dir
      · rw [List.filter_cons_of_pos (by simpa using hdot), descend, descend]
        cases d.child dir part with
        | error e => rfl
        | ok next =>
            rcases next with ⟨place, n⟩
            cases n with
            | directory => exact ih place
            | file bytes => rfl

theorem descend_parts (d : Disk) (dir : Place) (p : Path) :
    d.descend dir p.parts = d.descend dir p.rawParts := by
  rw [← descend_filter d dir p.parts, ← descend_filter d dir p.rawParts]
  congr 1
  unfold Path.parts
  cases p.rawParts with
  | nil => rfl
  | cons first rest =>
      dsimp only
      split
      · rename_i hfirst
        have hdot : first = "." := by simp_all
        simp [hdot]
      · simp [List.filter_cons]

/-- A path that no part of it spoils leads down to a directory exactly if one is found there. -/
theorem descend_eq_find {d : Disk} {p : Path} (hcheck : checkPath p = .ok ()) :
    d.descend (if p.isAbsolute then [] else d.working) p.rawParts =
      match d.find p with
      | .ok (place, .directory) => .ok place
      | .ok (_, .file _) => .error .notDirectory
      | .error e => .error e := by
  unfold find locate
  rcases List.eq_nil_or_concat p.rawParts with hnil | ⟨above, part, hlast⟩
  · simp [hcheck, hnil, descend, bind, Except.bind, pure, Except.pure]
  · rw [hlast, List.concat_eq_append, descend_append, List.dropLast_concat, List.getLast?_concat]
    simp only [hcheck, bind, Except.bind, pure, Except.pure]
    cases d.descend (if p.isAbsolute then [] else d.working) above with
    | error e => rfl
    | ok dir =>
        dsimp only
        rw [descend]
        cases d.child dir part with
        | error e => rfl
        | ok next =>
            rcases next with ⟨place, n⟩
            cases n with
            | directory => rfl
            | file bytes =>
                dsimp only
                split_ifs <;> rfl

theorem find_of_descend {d : Disk} {p : Path} {place : Place} (hcheck : checkPath p = .ok ())
    (h : d.descend (if p.isAbsolute then [] else d.working) p.rawParts = .ok place) :
    d.find p = .ok (place, .directory) := by
  rw [descend_eq_find hcheck] at h
  split at h
  · rename_i hfind
    rw [hfind, Except.ok.inj h]
  · cases h
  · cases h

section
variable {d : Disk} {p : Path} {e : FileError}

theorem locate_of_checkPath (h : checkPath p = .error e) : d.locate p = .error e := by
  simp [locate, h, bind, Except.bind]

theorem find_of_locate_error (h : d.locate p = .error e) : d.find p = .error e := by
  simp [find, h, bind, Except.bind]

theorem find_of_checkPath (h : checkPath p = .error e) : d.find p = .error e :=
  find_of_locate_error (locate_of_checkPath h)

theorem read_of_error (h : d.find p = .error e) : d.read p = .error e := by
  simp [Disk.read, h, bind, Except.bind]

end

/-! ## Files in a directory that is there -/

section
variable {d : Disk} {p : Path} {dir : Place} {part : String}

theorem child_of_ne_dots (hdots : part ≠ "." ∧ part ≠ "..") :
    d.child dir part =
      if maxNameSize < part.utf8ByteSize then .error .nameTooLong
      else match d.node? (dir ++ [part]) with
        | none => .error .notFound
        | some n => .ok (dir ++ [part], n) := by
  unfold child
  exact (if_neg hdots.1).trans (if_neg hdots.2)

theorem find_of_locate (hlocate : d.locate p = .ok (dir, some part))
    (hdots : part ≠ "." ∧ part ≠ "..") (hslash : p.endsWithSlash = false) :
    d.find p =
      if maxNameSize < part.utf8ByteSize then .error .nameTooLong
      else match d.node? (dir ++ [part]) with
        | none => .error .notFound
        | some n => .ok (dir ++ [part], n) := by
  unfold find
  rw [hlocate, ← child_of_ne_dots hdots]
  simp only [bind, Except.bind, pure, Except.pure, hslash]
  cases d.child dir part with
  | error e => rfl
  | ok next =>
      rcases next with ⟨place, n⟩
      cases n <;> rfl

theorem target_of_locate (hlocate : d.locate p = .ok (dir, some part))
    (hdots : part ≠ "." ∧ part ≠ "..") :
    d.target p =
      if maxNameSize < part.utf8ByteSize then .error .nameTooLong
      else .ok (dir ++ [part], d.node? (dir ++ [part])) := by
  unfold target
  rw [hlocate]
  simp only [bind, Except.bind, pure, Except.pure]
  rw [child_of_ne_dots hdots]
  split_ifs
  · rfl
  · cases d.node? (dir ++ [part]) with
    | none => rfl
    | some n => rfl

theorem target_of_find {place : Place} (h : d.find p = .ok (place, .directory)) :
    d.target p = .ok (place, some .directory) := by
  unfold find at h
  unfold target
  cases hlocate : d.locate p with
  | error e => simp [hlocate, bind, Except.bind] at h
  | ok found =>
      rcases found with ⟨dir, last⟩
      cases last with
      | none =>
          simp only [hlocate, bind, Except.bind, pure, Except.pure, Except.ok.injEq,
            Prod.mk.injEq, and_true] at h ⊢
          exact h
      | some part =>
          simp only [hlocate, bind, Except.bind, pure, Except.pure] at h ⊢
          cases hchild : d.child dir part with
          | error e => simp [hchild] at h
          | ok next =>
              rcases next with ⟨there, n⟩
              cases n with
              | directory =>
                  simp only [hchild, Except.ok.injEq, Prod.mk.injEq, and_true] at h ⊢
                  exact h
              | file bytes =>
                  simp only [hchild] at h
                  split_ifs at h
                  simp at h

theorem makeDir_of_find {place : Place} (h : d.find p = .ok (place, .directory)) :
    d.makeDir p = .error .alreadyExists := by
  simp [makeDir, target_of_find h, bind, Except.bind]

theorem checkPath_of_makeDir {d' : Disk} (h : d.makeDir p = .ok d') : checkPath p = .ok () := by
  unfold makeDir target locate at h
  cases hcheck : checkPath p with
  | error e => simp [hcheck, bind, Except.bind] at h
  | ok u => rfl

end
end Disk

namespace Store
open Disk

/-! ## Paths into the directory -/

theorem checkPath_eq_ok {p : Path} :
    checkPath p = .ok () ↔ '\x00' ∉ p.toList ∧ p ≠ "" ∧ p.utf8ByteSize ≤ maxPathSize := by
  unfold checkPath
  split_ifs with hnul hempty hlong
  · simp_all
  · simp_all
  · simp_all
  · simp_all

theorem utf8ByteSize_le_join (root : Path) {name : String} (hname : Path.IsComponent name) :
    root.utf8ByteSize ≤ (root.join name).utf8ByteSize := by
  unfold Path.join
  rw [hname.not_absolute, if_neg Bool.false_ne_true]
  split_ifs <;> simp only [String.utf8ByteSize_append] <;> omega

theorem mem_join {root : Path} {name : String} (hname : Path.IsComponent name) {c : Char}
    (hc : c ≠ '/') : c ∈ (root.join name).toList ↔ c ∈ root.toList ∨ c ∈ name.toList := by
  unfold Path.join
  rw [hname.not_absolute, if_neg Bool.false_ne_true]
  split_ifs <;> simp [hc]

/-- The path of a store leads to its directory. -/
structure Settled (s : Store) (d : Disk) : Prop where
  descends : d.descend (if s.root.isAbsolute then [] else d.working) s.root.rawParts =
    .ok (d.placeOf s.root)
  accepted : s.root = "" ∨ checkPath s.root = .ok ()

section
variable {s : Store} {d d' : Disk} {module : String}

theorem Settled.keeps (h : s.Settled d) (hk : d.Keeps d') : s.Settled d' := by
  refine ⟨?_, h.accepted⟩
  rw [hk.working, hk.placeOf]
  exact hk.descend h.descends

theorem settled_of_find (hm : Path.IsComponent module) {place : Place} {bytes : List UInt8}
    (h : d.find (s.pathFor module) = .ok (place, .file bytes)) : s.Settled d := by
  rcases (find_eq_file h).1.located with ⟨dir, part, hlocate, -, -⟩
  rcases locate_eq_ok.mp hlocate with ⟨hcheck, hdescend, -⟩
  rw [rawParts_pathFor s hm.noSlash, List.dropLast_concat,
    isAbsolute_pathFor s hm.noSlash] at hdescend
  constructor
  · rw [hdescend, descend_eq_ok hdescend]
    rfl
  · have hname := isComponent_fileName hm.noSlash
    rcases checkPath_eq_ok.mp hcheck with ⟨hnul, -, hsize⟩
    by_cases hempty : s.root = ""
    · exact .inl hempty
    · refine .inr (checkPath_eq_ok.mpr ⟨?_, hempty, ?_⟩)
      · intro hmem
        exact hnul ((mem_join hname (by decide)).mpr (.inl hmem))
      · exact (utf8ByteSize_le_join s.root hname).trans hsize

theorem settled_of_root_eq (h : s.root = "") : s.Settled d := by
  refine ⟨?_, .inl h⟩
  rw [h]
  rfl

theorem settled_of_find_root {place : Place} (h : d.find s.root = .ok (place, .directory)) :
    s.Settled d := by
  have hcheck : checkPath s.root = .ok () := by
    unfold find locate at h
    cases hcheck : checkPath s.root with
    | error e => simp [hcheck, bind, Except.bind] at h
    | ok u => rfl
  have hdescend := descend_eq_find (d := d) hcheck
  rw [h] at hdescend
  refine ⟨?_, .inr hcheck⟩
  rw [hdescend, descend_eq_ok hdescend]
  rfl

theorem Settled.find_root (h : s.Settled d) (hroot : s.root ≠ "") :
    d.find s.root = .ok (d.placeOf s.root, .directory) :=
  find_of_descend (h.accepted.resolve_left hroot) h.descends

theorem Settled.locate_pathFor (h : s.Settled d) (hm : Path.IsComponent module)
    (hcheck : checkPath (s.pathFor module) = .ok ()) :
    d.locate (s.pathFor module) = .ok (d.placeOf s.root, some (fileName module)) := by
  rw [locate_eq_ok, rawParts_pathFor s hm.noSlash, isAbsolute_pathFor s hm.noSlash,
    List.dropLast_concat, List.getLast?_concat]
  exact ⟨hcheck, h.descends, rfl⟩

theorem endsWithSlash_pathFor (s : Store) (hm : Path.IsComponent module) :
    Path.endsWithSlash (s.pathFor module) = false :=
  Path.endsWithSlash_join s.root (isComponent_fileName hm.noSlash)

theorem Settled.find_pathFor (h : s.Settled d) (hm : Path.IsComponent module)
    (hcheck : checkPath (s.pathFor module) = .ok ()) :
    d.find (s.pathFor module) =
      if maxNameSize < (fileName module).utf8ByteSize then .error .nameTooLong
      else match d.node? (s.placeOn d module) with
        | none => .error .notFound
        | some n => .ok (s.placeOn d module, n) := by
  rw [s.placeOn_eq d hm.noSlash]
  exact find_of_locate (h.locate_pathFor hm hcheck) (fileName_ne_dots module)
    (endsWithSlash_pathFor s hm)

end
end Store
end CompletionDb
