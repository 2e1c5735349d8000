import CompletionDb.Proofs.Places

/-!
# What operations change on a disk

Each operation that succeeds sets or erases the nodes at the places of its paths and leaves the rest
alone. Directories stay directories, so a path that was found through them is found again later;
`Keeps` is that half of the story. The other half is about files: `file?` is what a place holds, and
an operation is described by the places at which it may differ.
-/
namespace CompletionDb.Disk

/-- The bytes of the file at a place. -/
def file? (d : Disk) (p : Place) : Option (List UInt8) :=
  match d.node? p with
  | some (.file bytes) => some bytes
  | some .directory | none => none

theorem file?_eq_some {d : Disk} {p : Place} {bytes : List UInt8} :
    d.file? p = some bytes ↔ d.node? p = some (.file bytes) := by
  unfold file?
  split <;> simp_all

theorem lookup_filter_ne {α : Type} (nodes : List (Place × α)) (p q : Place) :
    (nodes.filter (·.1 != p)).lookup q = if q = p then none else nodes.lookup q := by
  induction nodes with
  | nil => simp
  | cons node nodes ih =>
      obtain ⟨place, a⟩ := node
      by_cases hp : place = p
      · rw [List.filter_cons_of_neg (by simpa using hp), ih]
        by_cases hq : q = p
        · rw [if_pos hq, if_pos hq]
        · have hne : (q == p) = false := beq_false_of_ne hq
          simp [hp, hq, List.lookup_cons, hne]
      · by_cases hq : q = place
        · simp [hp, hq]
        · have hne : (q == place) = false := beq_false_of_ne hq
          simp [hp, List.lookup_cons, hne, ih]

theorem node?_erase {d : Disk} {p : Place} (hp : p ≠ []) (q : Place) :
    (d.erase p).node? q = if q = p then none else d.node? q := by
  unfold node? erase
  by_cases hq : q = []
  · simp [hq, Ne.symm hp]
  · simp [hq, lookup_filter_ne]

theorem node?_put {d : Disk} {p : Place} (hp : p ≠ []) (n : Node) (q : Place) :
    (d.put p n).node? q = if q = p then some n else d.node? q := by
  unfold put
  by_cases hq : q = p
  · simp [node?, hq, hp]
  · have herase := node?_erase (d := d) hp q
    have hne : (q == p) = false := beq_false_of_ne hq
    unfold node? at herase ⊢
    simpa [hq, List.lookup_cons, hne] using herase

/-- Directories stay, and paths start where they did. -/
structure Keeps (d d' : Disk) : Prop where
  working : d'.working = d.working
  directory : ∀ p, d.node? p = some .directory → d'.node? p = some .directory

theorem Keeps.refl (d : Disk) : d.Keeps d := ⟨rfl, fun _ h => h⟩

theorem Keeps.trans {a b c : Disk} (hab : a.Keeps b) (hbc : b.Keeps c) : a.Keeps c :=
  ⟨hbc.working.trans hab.working, fun p hp => hbc.directory p (hab.directory p hp)⟩

theorem Keeps.placeOf {d d' : Disk} (h : d.Keeps d') (p : Path) : d'.placeOf p = d.placeOf p := by
  rw [Disk.placeOf, Disk.placeOf, h.working]

theorem keeps_put {d : Disk} {p : Place} {n : Node} (hp : p ≠ [])
    (h : d.node? p ≠ some .directory) : d.Keeps (d.put p n) := by
  refine ⟨rfl, ?_⟩
  intro q hq
  have hne : q ≠ p := by
    rintro rfl
    exact h hq
  rw [node?_put hp, if_neg hne, hq]

theorem keeps_erase {d : Disk} {p : Place} (hp : p ≠ []) (h : d.node? p ≠ some .directory) :
    d.Keeps (d.erase p) := by
  refine ⟨rfl, ?_⟩
  intro q hq
  have hne : q ≠ p := by
    rintro rfl
    exact h hq
  rw [node?_erase hp, if_neg hne, hq]

/-! ## Resolving -/

/-- A part that names a node of its directory. -/
structure Ordinary (part : String) : Prop where
  notDot : part ≠ "."
  notDots : part ≠ ".."
  short : part.utf8ByteSize ≤ maxNameSize

theorem child_eq_ok {d : Disk} {dir place : Place} {part : String} {n : Node}
    (h : d.child dir part = .ok (place, n)) :
    place = dir.enter part ∧
      ((part = "." ∨ part = "..") ∧ n = .directory ∨
        Ordinary part ∧ place = dir ++ [part] ∧ d.node? place = some n) := by
  unfold child at h
  unfold Place.enter
  split_ifs at h ⊢ with hdot hdots hlong
  · simp_all
  · simp_all
  · have hpart : Ordinary part := ⟨hdot, hdots, by omega⟩
    split at h <;> simp_all

theorem child_of_node {d : Disk} {dir : Place} {part : String} {n : Node} (hpart : Ordinary part)
    (hn : d.node? (dir ++ [part]) = some n) : d.child dir part = .ok (dir ++ [part], n) := by
  have hshort : ¬ maxNameSize < part.utf8ByteSize := by
    have := hpart.short
    omega
  rw [child, if_neg hpart.notDot, if_neg hpart.notDots, if_neg hshort, hn]

theorem child_eq_notFound {d : Disk} {dir : Place} {part : String}
    (h : d.child dir part = .error .notFound) :
    Ordinary part ∧ d.node? (dir ++ [part]) = none := by
  unfold child at h
  split_ifs at h with hdot hdots hlong
  · cases h
  · split at h
    · rename_i hnode
      exact ⟨⟨hdot, hdots, by omega⟩, hnode⟩
    · cases h

theorem descend_eq_ok {d : Disk} {dir place : Place} {parts : List String}
    (h : d.descend dir parts = .ok place) : place = parts.foldl Place.enter dir := by
  induction parts generalizing dir with
  | nil =>
      rw [descend, Except.ok.injEq] at h
      exact h.symm
  | cons part parts ih =>
      rw [descend] at h
      split at h
      · cases h
      · cases h
      · rename_i next hchild
        rw [List.foldl_cons, ← (child_eq_ok hchild).1]
        exact ih h

theorem Keeps.descend {d d' : Disk} (hk : d.Keeps d') {dir place : Place} {parts : List String}
    (h : d.descend dir parts = .ok place) : d'.descend dir parts = .ok place := by
  induction parts generalizing dir with
  | nil => exact h
  | cons part parts ih =>
      rw [Disk.descend] at h ⊢
      split at h
      · cases h
      · cases h
      · rename_i next hchild
        have hchild' : d'.child dir part = .ok (next, .directory) := by
          obtain ⟨-, ⟨hdots, -⟩ | ⟨hpart, rfl, hnode⟩⟩ := child_eq_ok hchild
          · unfold child at hchild ⊢
            rcases hdots with rfl | rfl <;> exact hchild
          · exact child_of_node hpart (hk.directory _ hnode)
        rw [hchild']
        exact ih h

theorem locate_eq_ok {d : Disk} {p : Path} {dir : Place} {last : Option String} :
    d.locate p = .ok (dir, last) ↔ checkPath p = .ok () ∧
      d.descend (if p.isAbsolute then [] else d.working) p.rawParts.dropLast = .ok dir ∧
      p.rawParts.getLast? = last := by
  unfold locate
  cases checkPath p with
  | error e => simp [bind, Except.bind]
  | ok u =>
      simp only [bind, Except.bind, pure, Except.pure]
      cases d.descend (if p.isAbsolute then [] else d.working) p.rawParts.dropLast with
      | error e => simp
      | ok place => simp

theorem Keeps.locate {d d' : Disk} (hk : d.Keeps d') {p : Path} {dir : Place}
    {last : Option String} (h : d.locate p = .ok (dir, last)) : d'.locate p = .ok (dir, last) := by
  obtain ⟨hcheck, hdescend, hlast⟩ := locate_eq_ok.mp h
  exact locate_eq_ok.mpr ⟨hcheck, by rw [hk.working]; exact hk.descend hdescend, hlast⟩

/-- What a path with a last part leads to, in terms of its directory. -/
theorem placeOf_of_locate {d : Disk} {p : Path} {dir : Place} {part : String}
    (h : d.locate p = .ok (dir, some part)) : d.placeOf p = dir.enter part := by
  obtain ⟨-, hdescend, hlast⟩ := locate_eq_ok.mp h
  obtain ⟨above, habove⟩ := List.getLast?_eq_some_iff.mp hlast
  rw [habove, List.dropLast_concat] at hdescend
  rw [placeOf, habove, List.foldl_append, ← descend_eq_ok hdescend]
  rfl

/-- A path that ends in a file, or could: the directory and the name under which it lies. -/
structure Leads (d : Disk) (p : Path) (place : Place) : Prop where
  placed : d.placeOf p = place
  proper : place ≠ []
  located : ∃ dir part, d.locate p = .ok (dir, some part) ∧ Ordinary part ∧ place = dir ++ [part]

theorem leads_of_locate {d : Disk} {p : Path} {dir : Place} {part : String}
    (h : d.locate p = .ok (dir, some part)) (hpart : Ordinary part) :
    d.Leads p (dir ++ [part]) := by
  refine ⟨?_, by simp, dir, part, h, hpart, rfl⟩
  rw [placeOf_of_locate h, Place.enter, if_neg hpart.notDot, if_neg hpart.notDots]

theorem find_eq_file {d : Disk} {p : Path} {place : Place} {bytes : List UInt8}
    (h : d.find p = .ok (place, .file bytes)) :
    d.Leads p place ∧ d.node? place = some (.file bytes) ∧ p.endsWithSlash = false := by
  unfold find at h
  cases hlocate : d.locate p with
  | error e => simp [hlocate, bind, Except.bind] at h
  | ok found =>
      obtain ⟨dir, last⟩ := found
      cases last with
      | none => simp [hlocate, bind, Except.bind, pure, Except.pure] at h
      | some part =>
          simp only [hlocate, bind, Except.bind, pure, Except.pure] at h
          cases hchild : d.child dir part with
          | error e => simp [hchild] at h
          | ok next =>
              obtain ⟨there, n⟩ := next
              cases n with
              | directory => simp [hchild] at h
              | file content =>
                  simp only [hchild] at h
                  split_ifs at h with hslash
                  simp only [Except.ok.injEq, Prod.mk.injEq, Node.file.injEq] at h
                  obtain ⟨rfl, rfl⟩ := h
                  obtain ⟨-, ⟨-, hn⟩ | ⟨hpart, rfl, hnode⟩⟩ := child_eq_ok hchild
                  · cases hn
                  · exact ⟨leads_of_locate hlocate hpart, hnode, by simpa using hslash⟩

theorem Leads.find {d d' : Disk} {p : Path} {place : Place} {bytes : List UInt8}
    (h : d.Leads p place) (hk : d.Keeps d') (hslash : p.endsWithSlash = false)
    (hn : d'.node? place = some (.file bytes)) : d'.find p = .ok (place, .file bytes) := by
  obtain ⟨dir, part, hlocate, hpart, rfl⟩ := h.located
  unfold Disk.find
  simp [hk.locate hlocate, child_of_node hpart hn, hslash, bind, Except.bind, pure, Except.pure]

theorem target_eq_ok {d : Disk} {p : Path} {place : Place} {n : Option Node}
    (h : d.target p = .ok (place, n)) (hn : n ≠ some .directory) :
    d.Leads p place ∧ d.node? place = n := by
  unfold target at h
  cases hlocate : d.locate p with
  | error e => simp [hlocate, bind, Except.bind] at h
  | ok found =>
      obtain ⟨dir, last⟩ := found
      cases last with
      | none =>
          simp only [hlocate, bind, Except.bind, pure, Except.pure, Except.ok.injEq,
            Prod.mk.injEq] at h
          exact absurd h.2.symm hn
      | some part =>
          simp only [hlocate, bind, Except.bind, pure, Except.pure] at h
          split at h
          · rename_i there n' hchild
            simp only [Except.ok.injEq, Prod.mk.injEq] at h
            obtain ⟨rfl, rfl⟩ := h
            obtain ⟨-, ⟨-, rfl⟩ | ⟨hpart, rfl, hnode⟩⟩ := child_eq_ok hchild
            · exact absurd rfl hn
            · exact ⟨leads_of_locate hlocate hpart, hnode⟩
          · rename_i hchild
            simp only [Except.ok.injEq, Prod.mk.injEq] at h
            obtain ⟨rfl, rfl⟩ := h
            obtain ⟨hpart, hnode⟩ := child_eq_notFound hchild
            exact ⟨leads_of_locate hlocate hpart, hnode⟩
          · cases h

/-! ## Operations -/

/-- A file that was written is found at its path. -/
theorem write_eq_ok {d d' : Disk} {p : Path} {bytes : List UInt8} (h : d.write p bytes = .ok d') :
    d.placeOf p ≠ [] ∧ d.node? (d.placeOf p) ≠ some .directory ∧
      d' = d.put (d.placeOf p) (.file bytes) ∧ d'.find p = .ok (d.placeOf p, .file bytes) := by
  unfold write at h
  cases hlocate : d.locate p with
  | error e => simp [hlocate, bind, Except.bind] at h
  | ok found =>
      simp only [hlocate, bind, Except.bind] at h
      split_ifs at h with hslash
      cases htarget : d.target p with
      | error e => simp [htarget] at h
      | ok goal =>
          obtain ⟨place, n⟩ := goal
          have hn : n ≠ some .directory := by
            rintro rfl
            simp [htarget] at h
          obtain ⟨hleads, hnode⟩ := target_eq_ok htarget hn
          have hput : d' = d.put place (.file bytes) := by
            simpa [htarget, pure, Except.pure, eq_comm] using h
          rw [hleads.placed]
          refine ⟨hleads.proper, by rw [hnode]; exact hn, hput, ?_⟩
          have hdir : d.node? place ≠ some .directory := by rw [hnode]; exact hn
          rw [hput]
          exact hleads.find (keeps_put hleads.proper hdir) (by simpa using hslash)
            (by rw [node?_put hleads.proper, if_pos rfl])

theorem remove_of_find {d : Disk} {p : Path} {place : Place} {bytes : List UInt8}
    (h : d.find p = .ok (place, .file bytes)) : d.remove p = .ok (d.erase place) := by
  simp [remove, h, bind, Except.bind, pure, Except.pure]

/-- A file that was moved is found at its new path. -/
theorem rename_eq_ok {d d' : Disk} {source dest : Path} (h : d.rename source dest = .ok d') :
    ∃ bytes, d.node? (d.placeOf source) = some (.file bytes) ∧ d.placeOf source ≠ [] ∧
      d.placeOf dest ≠ [] ∧ d.node? (d.placeOf dest) ≠ some .directory ∧
      d' = (d.erase (d.placeOf source)).put (d.placeOf dest) (.file bytes) ∧
      d'.find dest = .ok (d.placeOf dest, .file bytes) := by
  unfold rename at h
  cases hfind : d.find source with
  | error e => simp [hfind, bind, Except.bind] at h
  | ok found =>
      obtain ⟨place, n⟩ := found
      cases n with
      | directory => simp [hfind, bind, Except.bind] at h
      | file bytes =>
          obtain ⟨hsource, hnode, -⟩ := find_eq_file hfind
          simp only [hfind, bind, Except.bind] at h
          cases htarget : d.target dest with
          | error e => simp [htarget] at h
          | ok goal =>
              obtain ⟨goal, n⟩ := goal
              have hn : n ≠ some .directory := by
                rintro rfl
                simp [htarget] at h
              obtain ⟨hdest, hgoal⟩ := target_eq_ok htarget hn
              have hput : dest.endsWithSlash = false ∧
                  d' = (d.erase place).put goal (.file bytes) := by
                simp only [htarget] at h
                split_ifs at h with hslash
                exact ⟨by simpa using hslash, by simpa [pure, Except.pure, eq_comm] using h⟩
              have hplace : d.node? place ≠ some .directory := by simp [hnode]
              have herase := keeps_erase hsource.proper hplace
              have hfree : (d.erase place).node? goal ≠ some .directory := by
                rw [node?_erase hsource.proper]
                split_ifs
                · simp
                · rw [hgoal]
                  exact hn
              rw [hsource.placed, hdest.placed]
              refine ⟨bytes, hnode, hsource.proper, hdest.proper, by rw [hgoal]; exact hn,
                hput.2, ?_⟩
              rw [hput.2]
              exact hdest.find (herase.trans (keeps_put hdest.proper hfree)) hput.1
                (by rw [node?_put hdest.proper, if_pos rfl])

theorem makeDir_eq_ok {d d' : Disk} {p : Path} (h : d.makeDir p = .ok d') :
    d.placeOf p ≠ [] ∧ d.node? (d.placeOf p) = none ∧ d' = d.put (d.placeOf p) .directory := by
  unfold makeDir at h
  cases htarget : d.target p with
  | error e => simp [htarget, bind, Except.bind] at h
  | ok goal =>
      obtain ⟨place, n⟩ := goal
      cases n with
      | some n => simp [htarget, bind, Except.bind] at h
      | none =>
          obtain ⟨hleads, hnode⟩ := target_eq_ok htarget (by simp)
          rw [hleads.placed]
          refine ⟨hleads.proper, hnode, ?_⟩
          simpa [htarget, bind, Except.bind, pure, Except.pure, eq_comm] using h

end CompletionDb.Disk
