/-!
# Ancestors without a given order

A class that comes without an ancestor order gets one from its declared bases: first the bases of
the class in declaration order, each of them once, then in the same order what each base adds by
the same rule. The class itself is not listed unless it is an ancestor of its own.

A class is expanded only once. Each expansion uses up one class of the hierarchy, so the search ends
on cyclic hierarchies as well.
-/
namespace CompletionDb

/-- Declared bases by class. Classes that are not listed have none. -/
abbrev Hierarchy (α : Type) := List (α × List α)

namespace Hierarchy

variable {α : Type} [DecidableEq α]

def bases (h : Hierarchy α) (cls : α) : List α := (h.lookup cls).getD []

/-- Append what is not yet there. -/
def addNew (collected : List α) (cs : List α) : List α :=
  cs.foldl (fun acc c => if c ∈ acc then acc else acc ++ [c]) collected

/-- Number of listed classes that are not expanded yet. -/
def unexpanded (h : Hierarchy α) (expanded : List α) : Nat :=
  (h.map Prod.fst).countP (· ∉ expanded)

theorem unexpanded_cons_le (h : Hierarchy α) (expanded : List α) (cls : α) :
    unexpanded h (cls :: expanded) ≤ unexpanded h expanded :=
  List.countP_mono_left (by simp)

theorem unexpanded_cons_lt {h : Hierarchy α} {expanded : List α} {cls : α}
    (hlisted : cls ∈ h.map Prod.fst) (hfresh : cls ∉ expanded) :
    unexpanded h (cls :: expanded) < unexpanded h expanded := by
  unfold unexpanded
  generalize h.map Prod.fst = keys at hlisted ⊢
  induction keys with
  | nil => simp at hlisted
  | cons c cs ih =>
      have hle : cs.countP (· ∉ cls :: expanded) ≤ cs.countP (· ∉ expanded) :=
        List.countP_mono_left (by simp)
      by_cases hc : c = cls
      · subst hc
        simp only [List.countP_cons, List.mem_cons, true_or, not_true_eq_false, decide_false,
          hfresh, not_false_eq_true, decide_true, if_true]
        simpa using Nat.lt_succ_of_le hle
      · have hrest := ih (by simpa [Ne.symm hc] using hlisted)
        simp only [List.countP_cons, List.mem_cons, hc, false_or] at hrest ⊢
        omega

theorem bases_eq_nil {h : Hierarchy α} {cls : α} (hcls : cls ∉ h.map Prod.fst) :
    h.bases cls = [] := by
  have hlookup : h.lookup cls = none := by
    rw [List.lookup_eq_none_iff]
    intro p hp
    have hne : cls ≠ p.1 := fun e => hcls (e ▸ List.mem_map_of_mem hp)
    simp [hne]
  simp [bases, hlookup]

/-- Expand the pending classes in turn; the bases of each go before the rest. -/
def ancestorsFrom (h : Hierarchy α) (expanded collected : List α) : List α → List α
  | [] => collected
  | cls :: pending =>
    if cls ∈ expanded then ancestorsFrom h expanded collected pending
    else
      ancestorsFrom h (cls :: expanded) (addNew collected (h.bases cls)) (h.bases cls ++ pending)
termination_by pending => (unexpanded h expanded, pending.length)
decreasing_by
  · exact Prod.Lex.right _ (by simp)
  · rename_i hfresh
    by_cases hlisted : cls ∈ h.map Prod.fst
    · exact Prod.Lex.left _ _ (unexpanded_cons_lt hlisted hfresh)
    · have hshorter : (h.bases cls ++ pending).length < (cls :: pending).length := by
        simp [bases_eq_nil hlisted]
      rcases Nat.lt_or_eq_of_le (unexpanded_cons_le h expanded cls) with hlt | heq
      · exact Prod.Lex.left _ _ hlt
      · rw [heq]
        exact Prod.Lex.right _ hshorter

/-- The ancestors of a class in their order. -/
def ancestors (h : Hierarchy α) (cls : α) : List α := ancestorsFrom h [] [] [cls]

end Hierarchy

end CompletionDb
