import CompletionDb.Proofs.MemberPath
import CompletionDb.Proofs.RecordLayout

/-!
# All paths of a record

The paths that lead to an entry, listed as a walk through the tables meets them: an entry before its
members, and one member with all that is below it before the next. In an ordered record this is the
lexicographic order of the paths, and no path is met twice.
-/
namespace CompletionDb

namespace Entry

mutual
/-- The paths of an entry, its own first. -/
def paths : Entry → List (List String)
  | .type _ members => [] :: tablePaths members
  | .function _ | .method _ | .property _ | .data _ | .multiple _ | .typeRef _ | .moduleRef _ =>
    [[]]

/-- The paths that lead into a table. -/
def tablePaths : List (String × Entry) → List (List String)
  | [] => []
  | (name, e) :: rest => e.paths.map (name :: ·) ++ tablePaths rest
end

theorem paths_eq (e : Entry) : e.paths = [] :: tablePaths e.members := by
  cases e <;> rfl

theorem tablePaths_eq_flatMap (members : Table Entry) :
    tablePaths members = members.flatMap fun m => m.2.paths.map (m.1 :: ·) := by
  induction members with
  | nil => rfl
  | cons m members ih =>
      obtain ⟨name, e⟩ := m
      rw [tablePaths, ih, List.flatMap_cons]

/-- Induction over entries by their members; entries that are no types have none. -/
theorem inductionOnMembers {P : Entry → Prop} (e : Entry)
    (step : ∀ e : Entry, (∀ m ∈ e.members, P m.2) → P e) : P e := by
  induction e using Entry.inductionOn with
  | type info members ih => exact step _ ih
  | _ => exact step _ (List.forall_mem_nil _)

theorem Ordered.members {e : Entry} (h : e.Ordered) :
    e.members.Ascending ∧ ∀ m ∈ e.members, m.2.Ordered := by
  cases e with
  | type info members => exact ordered_type.mp h
  | _ => exact ⟨List.Pairwise.nil, List.forall_mem_nil _⟩

theorem mem_paths {e : Entry} (h : e.Ordered) {path : List String} :
    path ∈ e.paths ↔ (e.at? path).isSome := by
  induction path generalizing e with
  | nil =>
      rw [paths_eq]
      exact iff_of_true List.mem_cons_self rfl
  | cons name path ih =>
      obtain ⟨hasc, hmembers⟩ := h.members
      have hcons : name :: path ∈ e.paths ↔ ∃ m ∈ e.members, m.1 = name ∧ path ∈ m.2.paths := by
        rw [paths_eq, tablePaths_eq_flatMap]
        simp
      rw [hcons, at?_cons]
      constructor
      · rintro ⟨m, hm, rfl, hpath⟩
        rw [Table.find?_of_mem hasc hm, Option.bind_some]
        exact (ih (hmembers m hm)).mp hpath
      · intro hsome
        cases hfind : e.members.find? name with
        | none => simp [hfind] at hsome
        | some d =>
            have hmem := Table.mem_of_find? hfind
            rw [hfind, Option.bind_some] at hsome
            exact ⟨_, hmem, rfl, (ih (hmembers _ hmem)).mpr hsome⟩

theorem pairwise_paths (e : Entry) : e.Ordered → e.paths.Pairwise (List.Lex (· < ·)) := by
  induction e using inductionOnMembers with
  | step e ih =>
      intro h
      obtain ⟨hasc, hmembers⟩ := h.members
      rw [paths_eq, tablePaths_eq_flatMap, List.pairwise_cons]
      constructor
      · simp only [List.mem_flatMap, List.mem_map]
        rintro _ ⟨m, -, path, -, rfl⟩
        exact .nil
      · rw [List.pairwise_flatMap]
        constructor
        · intro m hm
          exact (ih m hm (hmembers m hm)).map _ fun _ _ hlt => .cons hlt
        · refine (List.pairwise_map.mp hasc).imp ?_
          simp only [List.forall_mem_map]
          intro m n hlt _ _ _ _
          exact .rel hlt

end Entry

namespace Record

def paths (r : Record) : List (List String) := Entry.tablePaths r.members

/-- A record as a type without fields of its own. At all paths but the empty one the same stands. -/
def asType (r : Record) : Entry := .type {} r.members

@[simp] theorem paths_asType (r : Record) : r.asType.paths = [] :: r.paths := rfl

@[simp] theorem ordered_asType {r : Record} : r.asType.Ordered ↔ r.Ordered := Iff.rfl

theorem at?_asType (r : Record) {path : List String} (hne : path ≠ []) :
    r.asType.at? path = r.at? path := by
  obtain ⟨name, path, rfl⟩ := List.exists_cons_of_ne_nil hne
  rfl

theorem ne_nil_of_mem_paths {r : Record} {path : List String} (h : path ∈ r.paths) : path ≠ [] := by
  rintro rfl
  rw [paths, Entry.tablePaths_eq_flatMap] at h
  simp at h

theorem mem_paths {r : Record} (h : r.Ordered) {path : List String} :
    path ∈ r.paths ↔ (r.at? path).isSome := by
  by_cases hne : path = []
  · rw [hne]
    exact iff_of_false (fun hmem => ne_nil_of_mem_paths hmem rfl) (by simp [at?])
  · rw [← at?_asType r hne, ← Entry.mem_paths (ordered_asType.mpr h), paths_asType,
      List.mem_cons, or_iff_right hne]

theorem pairwise_paths {r : Record} (h : r.Ordered) : r.paths.Pairwise (List.Lex (· < ·)) :=
  List.Pairwise.of_cons (r.asType.pairwise_paths h)

theorem nodup_paths {r : Record} (h : r.Ordered) : r.paths.Nodup := by
  refine (pairwise_paths h).imp fun hlt heq => ?_
  exact List.lex_irrefl String.lt_irrefl _ (heq ▸ hlt)

end Record
end CompletionDb
