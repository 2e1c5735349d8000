import Mathlib.Data.List.Nodup
import Mathlib.Logic.Relation
import CompletionDb.Hierarchy

/-!
# What the search for ancestors finds

The search is a loop over pending classes. It is the recursion that searches a class, all its bases
one after the other, and then the next class; `Searches` is that recursion, with what is expanded
and collected passed along, and the loop ends with what the recursion ends with.

`Progress` holds while the search for one class goes on, and at its end, with nothing pending, it
says what was found: the ancestors of that class, each of them once and none before a class that
declares it.

Where no class is an ancestor of its own, the search may as well expand a class each time it is met.
`Collects` is that plain rule. A class that is met again has been searched to its end before, since
otherwise it would be met while searching its own bases; so all its ancestors are collected, and
expanding it once more adds nothing.
-/
namespace CompletionDb.Hierarchy
variable {α : Type} [DecidableEq α] {h : Hierarchy α} {cls : α}

/-! ## Collecting -/

theorem addNew_cons (collected : List α) (c : α) (cs : List α) :
    addNew collected (c :: cs) =
      addNew (if c ∈ collected then collected else collected ++ [c]) cs := rfl

theorem addNew_eq (collected cs : List α) :
    addNew collected cs = collected ++ (cs.filter (· ∉ collected)).eraseDups := by
  induction cs generalizing collected with
  | nil => simp [addNew]
  | cons c cs ih =>
      rw [addNew_cons, ih]
      by_cases hc : c ∈ collected
      · simp [hc]
      · have hrest : cs.filter (· ∉ collected ++ [c]) =
            (cs.filter (· ∉ collected)).filter (!· == c) := by
          rw [List.filter_filter]
          apply List.filter_congr
          intro a _
          by_cases hac : a = c <;> simp [hac]
        rw [if_neg hc, hrest, List.filter_cons_of_pos (by simpa using hc), List.eraseDups_cons,
          List.append_assoc, List.singleton_append]

@[simp] theorem mem_addNew {a : α} {collected cs : List α} :
    a ∈ addNew collected cs ↔ a ∈ collected ∨ a ∈ cs := by
  rw [addNew_eq, List.mem_append, List.mem_eraseDups, List.mem_filter, decide_eq_true_eq]
  by_cases ha : a ∈ collected <;> simp [ha]

theorem nodup_addNew {collected : List α} (hnodup : collected.Nodup) (cs : List α) :
    (addNew collected cs).Nodup := by
  induction cs generalizing collected with
  | nil => exact hnodup
  | cons c cs ih =>
      rw [addNew_cons]
      split_ifs with hc
      · exact ih hnodup
      · refine ih (List.nodup_append.mpr ⟨hnodup, List.nodup_singleton c, ?_⟩)
        intro a ha b hb heq
        exact hc (List.mem_singleton.mp hb ▸ heq ▸ ha)

theorem addNew_of_subset {collected cs : List α} (hsub : ∀ c ∈ cs, c ∈ collected) :
    addNew collected cs = collected := by
  have hnone : cs.filter (· ∉ collected) = [] := by
    rw [List.filter_eq_nil_iff]
    intro c hc
    simpa using hsub c hc
  rw [addNew_eq, hnone, List.eraseDups_nil, List.append_nil]

/-! ## The search as a recursion -/

/-- Search the pending classes in turn, each with all its bases before the next one. A class that is
expanded already is passed over. The last two lists are what is expanded and collected then. -/
inductive Searches (h : Hierarchy α) :
    (pending expanded collected expanded' collected' : List α) → Prop
  | done (expanded collected : List α) : Searches h [] expanded collected expanded collected
  | pass {cls : α} {pending expanded collected expanded' collected' : List α} :
      cls ∈ expanded → Searches h pending expanded collected expanded' collected' →
      Searches h (cls :: pending) expanded collected expanded' collected'
  | expand {cls : α} {pending expanded collected : List α}
      {expanded₁ collected₁ expanded' collected' : List α} :
      cls ∉ expanded →
      Searches h (h.bases cls) (cls :: expanded) (addNew collected (h.bases cls))
        expanded₁ collected₁ →
      Searches h pending expanded₁ collected₁ expanded' collected' →
      Searches h (cls :: pending) expanded collected expanded' collected'

namespace Searches
variable {pending expanded collected expanded' collected' : List α}

theorem append_inv {ps qs : List α}
    (hs : h.Searches (ps ++ qs) expanded collected expanded' collected') :
    ∃ expanded₁ collected₁, h.Searches ps expanded collected expanded₁ collected₁ ∧
      h.Searches qs expanded₁ collected₁ expanded' collected' := by
  induction ps generalizing expanded collected with
  | nil => exact ⟨expanded, collected, .done _ _, hs⟩
  | cons p ps ih =>
      cases hs with
      | pass hp hrest =>
          obtain ⟨e, c, hps, hqs⟩ := ih hrest
          exact ⟨e, c, .pass hp hps, hqs⟩
      | expand hp hbases hrest =>
          obtain ⟨e, c, hps, hqs⟩ := ih hrest
          exact ⟨e, c, .expand hp hbases hps, hqs⟩

/-- The loop goes through the same states as the recursion. -/
theorem ancestorsFrom_append (hs : h.Searches pending expanded collected expanded' collected')
    (rest : List α) :
    ancestorsFrom h expanded collected (pending ++ rest) =
      ancestorsFrom h expanded' collected' rest := by
  induction hs generalizing rest with
  | done expanded collected => rfl
  | pass hp _ ih =>
      rw [List.cons_append, ancestorsFrom, if_pos hp]
      exact ih rest
  | @expand cls pending _ _ _ _ _ _ hp _ _ ihbases ihrest =>
      rw [List.cons_append, ancestorsFrom, if_neg hp, ihbases (pending ++ rest)]
      exact ihrest rest

end Searches

/-- The recursion ends, whatever the bases are. -/
theorem exists_searches (h : Hierarchy α) (expanded collected pending : List α) :
    ∃ expanded' collected', h.Searches pending expanded collected expanded' collected' := by
  induction expanded, collected, pending using ancestorsFrom.induct h with
  | case1 expanded collected => exact ⟨expanded, collected, .done _ _⟩
  | case2 expanded collected cls pending hmem ih =>
      obtain ⟨e, c, hs⟩ := ih
      exact ⟨e, c, .pass hmem hs⟩
  | case3 expanded collected cls pending hnew ih =>
      obtain ⟨e, c, hs⟩ := ih
      obtain ⟨e₁, c₁, hbases, hrest⟩ := hs.append_inv
      exact ⟨e, c, .expand hnew hbases hrest⟩

theorem Searches.eq_ancestors {expanded result : List α}
    (hs : h.Searches [cls] [] [] expanded result) : result = h.ancestors cls := by
  have hloop := hs.ancestorsFrom_append []
  rw [ancestorsFrom] at hloop
  exact hloop.symm

theorem searches_ancestors (h : Hierarchy α) (cls : α) :
    ∃ expanded, h.Searches [cls] [] [] expanded (h.ancestors cls) := by
  obtain ⟨expanded, result, hs⟩ := exists_searches h [] [] [cls]
  exact ⟨expanded, hs.eq_ancestors ▸ hs⟩

/-! ## What is found -/

/-- A class declares another one as a base. -/
def Declares (h : Hierarchy α) (cls base : α) : Prop := base ∈ h.bases cls

/-- One or more steps from a class to a base. -/
def IsAncestor (h : Hierarchy α) : α → α → Prop := Relation.TransGen h.Declares

theorem isAncestor_iff {a : α} :
    h.IsAncestor cls a ↔ a ∈ h.bases cls ∨ ∃ base ∈ h.bases cls, h.IsAncestor base a := by
  unfold IsAncestor
  rw [Relation.TransGen.head'_iff]
  simp only [Relation.reflTransGen_iff_eq_or_transGen]
  constructor
  · rintro ⟨base, hbase, rfl | hup⟩
    · exact .inl hbase
    · exact .inr ⟨base, hbase, hup⟩
  · rintro (hbase | ⟨base, hbase, hup⟩)
    · exact ⟨a, hbase, .inl rfl⟩
    · exact ⟨base, hbase, .inr hup⟩

/-- Each class of a list is a base of `cls` or of a class before it in the list. -/
def Grounded (h : Hierarchy α) (cls : α) (found : List α) : Prop :=
  ∀ before c after, found = before ++ c :: after → ∃ d ∈ cls :: before, c ∈ h.bases d

theorem Grounded.concat {found : List α} (hfound : h.Grounded cls found) {d c : α}
    (hd : d ∈ cls :: found) (hc : c ∈ h.bases d) : h.Grounded cls (found ++ [c]) := by
  intro before b after heq
  rcases List.eq_nil_or_concat after with rfl | ⟨after, last, rfl⟩
  · obtain ⟨rfl, hcb⟩ := List.append_inj' heq rfl
    rw [← List.singleton_inj.mp hcb]
    exact ⟨d, hd, hc⟩
  · have hlast : found ++ [c] = (before ++ b :: after) ++ [last] := by simpa using heq
    exact hfound before b after (List.append_inj' hlast rfl).1

theorem Grounded.addNew {found : List α} (hfound : h.Grounded cls found) {d : α}
    (hd : d ∈ cls :: found) {cs : List α} (hcs : ∀ c ∈ cs, c ∈ h.bases d) :
    h.Grounded cls (addNew found cs) := by
  induction cs generalizing found with
  | nil => exact hfound
  | cons c cs ih =>
      obtain ⟨hc, hcs⟩ := List.forall_mem_cons.mp hcs
      rw [addNew_cons]
      split_ifs
      · exact ih hfound hd hcs
      · refine ih (hfound.concat hd hc) ?_ hcs
        rw [← List.cons_append]
        exact List.mem_append_left _ hd

/-- What holds between the parts of a search for the ancestors of `cls`. -/
structure Progress (h : Hierarchy α) (cls : α) (expanded collected pending : List α) : Prop where
  nodup : collected.Nodup
  grounded : h.Grounded cls collected
  isAncestor : ∀ c ∈ collected, h.IsAncestor cls c
  /-- Only what is collected is waiting, beside the class itself. -/
  met : ∀ p ∈ pending, p ∈ cls :: collected
  /-- What is collected is expanded or still waiting for it. -/
  kept : ∀ c ∈ cls :: collected, c ∈ expanded ∨ c ∈ pending
  closed : ∀ e ∈ expanded, ∀ base ∈ h.bases e, base ∈ collected

namespace Progress
variable {expanded collected pending : List α} {p : α}

theorem start (h : Hierarchy α) (cls : α) : h.Progress cls [] [] [cls] where
  nodup := List.nodup_nil
  grounded := by
    intro before c after heq
    exact absurd heq (by simp)
  isAncestor := List.forall_mem_nil _
  met p hp := hp
  kept c hc := .inr hc
  closed := List.forall_mem_nil _

theorem pass (hi : h.Progress cls expanded collected (p :: pending)) (hp : p ∈ expanded) :
    h.Progress cls expanded collected pending where
  nodup := hi.nodup
  grounded := hi.grounded
  isAncestor := hi.isAncestor
  met q hq := hi.met q (List.mem_cons_of_mem p hq)
  kept c hc := by
    rcases hi.kept c hc with hc | hc
    · exact .inl hc
    · rcases List.mem_cons.mp hc with rfl | hc
      · exact .inl hp
      · exact .inr hc
  closed := hi.closed

theorem isAncestor_base (hi : h.Progress cls expanded collected (p :: pending)) {base : α}
    (hbase : base ∈ h.bases p) : h.IsAncestor cls base := by
  rcases List.mem_cons.mp (hi.met p List.mem_cons_self) with rfl | hp
  · exact .single hbase
  · exact (hi.isAncestor p hp).tail hbase

theorem expand (hi : h.Progress cls expanded collected (p :: pending)) :
    h.Progress cls (p :: expanded) (addNew collected (h.bases p)) (h.bases p ++ pending) where
  nodup := nodup_addNew hi.nodup _
  grounded := hi.grounded.addNew (hi.met p List.mem_cons_self) fun _ hc => hc
  isAncestor c hc := by
    rcases mem_addNew.mp hc with hc | hc
    · exact hi.isAncestor c hc
    · exact hi.isAncestor_base hc
  met q hq := by
    rw [List.mem_cons, mem_addNew]
    rcases List.mem_append.mp hq with hq | hq
    · exact .inr (.inr hq)
    · exact (List.mem_cons.mp (hi.met q (List.mem_cons_of_mem p hq))).imp_right .inl
  kept c hc := by
    rw [List.mem_cons, mem_addNew, ← or_assoc, ← List.mem_cons] at hc
    rcases hc with hc | hc
    · rcases hi.kept c hc with hc | hc
      · exact .inl (List.mem_cons_of_mem p hc)
      · rcases List.mem_cons.mp hc with rfl | hc
        · exact .inl List.mem_cons_self
        · exact .inr (List.mem_append_right _ hc)
    · exact .inr (List.mem_append_left _ hc)
  closed e he base hbase := by
    rw [mem_addNew]
    rcases List.mem_cons.mp he with rfl | he
    · exact .inr hbase
    · exact .inl (hi.closed e he base hbase)

/-- The search keeps it to its end, and then nothing is pending. -/
theorem run (hi : h.Progress cls expanded collected pending) :
    ∃ expanded', h.Progress cls expanded' (ancestorsFrom h expanded collected pending) [] := by
  induction expanded, collected, pending using ancestorsFrom.induct h with
  | case1 expanded collected =>
      rw [ancestorsFrom]
      exact ⟨expanded, hi⟩
  | case2 expanded collected p pending hmem ih =>
      rw [ancestorsFrom, if_pos hmem]
      exact ih (hi.pass hmem)
  | case3 expanded collected p pending hnew ih =>
      rw [ancestorsFrom, if_neg hnew]
      exact ih hi.expand

/-- With nothing pending, everything collected is expanded, and so all ancestors are there. -/
theorem mem_iff (hi : h.Progress cls expanded collected []) (a : α) :
    a ∈ collected ↔ h.IsAncestor cls a := by
  have hexpanded : ∀ c ∈ cls :: collected, c ∈ expanded := by
    intro c hc
    exact (hi.kept c hc).resolve_right List.not_mem_nil
  refine ⟨hi.isAncestor a, fun ha => ?_⟩
  induction ha with
  | single hbase => exact hi.closed cls (hexpanded cls List.mem_cons_self) _ hbase
  | tail _ hbase ih => exact hi.closed _ (hexpanded _ (List.mem_cons_of_mem _ ih)) _ hbase

end Progress

theorem progress_ancestors (h : Hierarchy α) (cls : α) :
    ∃ expanded, h.Progress cls expanded (h.ancestors cls) [] :=
  (Progress.start h cls).run

theorem nodup_ancestors (h : Hierarchy α) (cls : α) : (h.ancestors cls).Nodup := by
  obtain ⟨_, hi⟩ := progress_ancestors h cls
  exact hi.nodup

theorem mem_ancestors {a : α} : a ∈ h.ancestors cls ↔ h.IsAncestor cls a := by
  obtain ⟨_, hi⟩ := progress_ancestors h cls
  exact hi.mem_iff a

theorem grounded_ancestors (h : Hierarchy α) (cls : α) : h.Grounded cls (h.ancestors cls) := by
  obtain ⟨_, hi⟩ := progress_ancestors h cls
  exact hi.grounded

theorem collected_isPrefix (h : Hierarchy α) (expanded collected pending : List α) :
    collected <+: ancestorsFrom h expanded collected pending := by
  induction expanded, collected, pending using ancestorsFrom.induct h with
  | case1 expanded collected =>
      unfold ancestorsFrom
      exact List.prefix_rfl
  | case2 expanded collected p pending hmem ih =>
      rw [ancestorsFrom, if_pos hmem]
      exact ih
  | case3 expanded collected p pending hnew ih =>
      rw [ancestorsFrom, if_neg hnew]
      refine .trans ?_ ih
      rw [addNew_eq]
      exact List.prefix_append _ _

theorem eraseDups_bases_isPrefix (h : Hierarchy α) (cls : α) :
    (h.bases cls).eraseDups <+: h.ancestors cls := by
  have hfirst : addNew [] (h.bases cls) = (h.bases cls).eraseDups := by
    rw [addNew_eq, List.nil_append, List.filter_eq_self.mpr (by simp)]
  rw [ancestors, ancestorsFrom, if_neg List.not_mem_nil, ← hfirst]
  exact collected_isPrefix h _ _ _

/-- The recursion ends, and with one list. That list has no repeats and consists of the ancestors of
the class; the class itself is one of them only on a cycle. It starts with the declared bases, later
repeats left out, and each class in it is a base of the class or of one before it in the list. -/
theorem ancestors_exact (h : Hierarchy α) (cls : α) :
    (∀ result, (∃ expanded, h.Searches [cls] [] [] expanded result) ↔
        result = h.ancestors cls) ∧
      (h.ancestors cls).Nodup ∧
      (∀ c, c ∈ h.ancestors cls ↔ h.IsAncestor cls c) ∧
      (h.bases cls).eraseDups <+: h.ancestors cls ∧
      ∀ before c after, h.ancestors cls = before ++ c :: after →
        ∃ d ∈ cls :: before, c ∈ h.bases d := by
  refine ⟨fun result => ⟨?_, ?_⟩, nodup_ancestors h cls, fun c => mem_ancestors,
    eraseDups_bases_isPrefix h cls, grounded_ancestors h cls⟩
  · rintro ⟨expanded, hs⟩
    exact hs.eq_ancestors
  · rintro rfl
    exact searches_ancestors h cls

/-! ## Expanding a class each time it is met -/

/-- The plain rule for the pending classes in turn: collect the bases of a class that are not
collected yet, then apply the rule to each of its bases. It does not ask what was expanded before.
-/
inductive Collects (h : Hierarchy α) : (pending collected result : List α) → Prop
  | done (collected : List α) : Collects h [] collected collected
  | expand {cls : α} {pending collected collected₁ result : List α} :
      Collects h (h.bases cls)
        (collected ++ ((h.bases cls).filter (· ∉ collected)).eraseDups) collected₁ →
      Collects h pending collected₁ result → Collects h (cls :: pending) collected result

/-- No class is an ancestor of its own. -/
def Acyclic (h : Hierarchy α) : Prop := ∀ cls, ¬ h.IsAncestor cls cls

namespace Collects
variable {pending collected result : List α}

/-- The rule collects the ancestors of the pending classes and nothing else. -/
theorem mem_iff (hc : h.Collects pending collected result) (a : α) :
    a ∈ result ↔ a ∈ collected ∨ ∃ p ∈ pending, h.IsAncestor p a := by
  induction hc with
  | done collected => simp
  | @expand cls pending collected collected₁ result _ _ ihbases ihrest =>
      rw [← addNew_eq, mem_addNew] at ihbases
      rw [ihrest, ihbases, List.exists_mem_cons_iff, isAncestor_iff]
      simp only [or_assoc]

/-- If all ancestors are collected already, the rule adds nothing. -/
theorem eq_of_collected (hc : h.Collects pending collected result)
    (hall : ∀ p ∈ pending, ∀ a, h.IsAncestor p a → a ∈ collected) : result = collected := by
  induction hc with
  | done collected => rfl
  | @expand cls pending collected collected₁ result _ _ ihbases ihrest =>
      obtain ⟨hcls, hpending⟩ := List.forall_mem_cons.mp hall
      have hbases : ∀ base ∈ h.bases cls, base ∈ collected :=
        fun base hbase => hcls base (isAncestor_iff.mpr (.inl hbase))
      rw [← addNew_eq, addNew_of_subset hbases] at ihbases
      have hfirst : collected₁ = collected := by
        apply ihbases
        intro base hbase a ha
        exact hcls a (isAncestor_iff.mpr (.inr ⟨base, hbase, ha⟩))
      rw [ihrest (hfirst ▸ hpending), hfirst]

theorem cons {p : α} {ps collected₁ : List α} (hp : h.Collects [p] collected collected₁)
    (hps : h.Collects ps collected₁ result) : h.Collects (p :: ps) collected result := by
  cases hp with
  | expand hbases hdone =>
      cases hdone
      exact .expand hbases hps

theorem exists_of_forall {ps : List α}
    (hps : ∀ p ∈ ps, ∀ collected, ∃ result, h.Collects [p] collected result) (collected : List α) :
    ∃ result, h.Collects ps collected result := by
  induction ps generalizing collected with
  | nil => exact ⟨collected, .done collected⟩
  | cons p ps ih =>
      obtain ⟨hp, hps⟩ := List.forall_mem_cons.mp hps
      obtain ⟨collected₁, hp⟩ := hp collected
      obtain ⟨result, hps⟩ := ih hps collected₁
      exact ⟨result, hp.cons hps⟩

end Collects

/-- Where no class is an ancestor of its own, the plain rule has a result. The classes on the way
down to the one at hand differ from it, so with each step fewer are left for the rest of the way. -/
theorem Acyclic.exists_collects (hacyclic : h.Acyclic) (chain : List α) (cls : α)
    (hchain : ∀ c ∈ chain, h.IsAncestor c cls) (collected : List α) :
    ∃ result, h.Collects [cls] collected result := by
  induction hleft : unexpanded h chain using Nat.strongRecOn
    generalizing chain cls collected with
  | _ left ih =>
      have hbases : ∀ base ∈ h.bases cls, ∀ collected, ∃ result,
          h.Collects [base] collected result := by
        intro base hbase collected
        have hlisted : cls ∈ h.map Prod.fst := by
          by_contra hunlisted
          rw [bases_eq_nil hunlisted] at hbase
          cases hbase
        have hfresh : cls ∉ chain := fun hmem => hacyclic cls (hchain cls hmem)
        refine ih _ (hleft ▸ unexpanded_cons_lt hlisted hfresh) (cls :: chain) base ?_ collected rfl
        rw [List.forall_mem_cons]
        exact ⟨.single hbase, fun c hc => (hchain c hc).tail hbase⟩
      obtain ⟨result, hresult⟩ := Collects.exists_of_forall hbases
        (collected ++ ((h.bases cls).filter (· ∉ collected)).eraseDups)
      exact ⟨result, .expand hresult (.done result)⟩

/-- Reached by any number of steps from a class to a base. -/
def Meets (h : Hierarchy α) : α → α → Prop := Relation.ReflTransGen h.Declares

/-- Each expanded class that can be met from the pending ones has all its ancestors collected. -/
def Settled (h : Hierarchy α) (pending expanded collected : List α) : Prop :=
  ∀ e ∈ expanded, ∀ p ∈ pending, h.Meets p e → ∀ a, h.IsAncestor e a → a ∈ collected

/-- From its bases a class is not met again, so it may count as expanded while they are searched. -/
theorem Settled.bases (hacyclic : h.Acyclic) {pending expanded collected : List α}
    (hs : h.Settled (cls :: pending) expanded collected) :
    h.Settled (h.bases cls) (cls :: expanded) (addNew collected (h.bases cls)) := by
  intro e he base hbase hmeets a ha
  rcases List.mem_cons.mp he with rfl | he
  · exact absurd (Relation.TransGen.head' hbase hmeets) (hacyclic e)
  · have hcollected := hs e he cls List.mem_cons_self (.head hbase hmeets) a ha
    exact mem_addNew.mpr (.inl hcollected)

/-- Once a class is searched, so is whatever was met from it. -/
theorem Settled.rest {pending expanded expanded₁ collected collected₁ : List α}
    (hs : h.Settled (cls :: pending) expanded collected)
    (hexpanded : ∀ e ∈ expanded₁, e ∈ expanded ∨ h.Meets cls e)
    (hcollected : ∀ a, a ∈ collected₁ ↔ a ∈ collected ∨ h.IsAncestor cls a) :
    h.Settled pending expanded₁ collected₁ := by
  intro e he p hp hmeets a ha
  rw [hcollected]
  rcases hexpanded e he with he | hcls
  · exact .inl (hs e he p (List.mem_cons_of_mem cls hp) hmeets a ha)
  · exact .inr (.trans_right hcls ha)

/-- The search that passes over expanded classes collects what the plain rule does. -/
theorem Collects.searches (hacyclic : h.Acyclic) {pending collected result : List α}
    (hc : h.Collects pending collected result) (expanded : List α)
    (hsettled : h.Settled pending expanded collected) :
    ∃ expanded', h.Searches pending expanded collected expanded' result ∧
      ∀ e ∈ expanded', e ∈ expanded ∨ ∃ p ∈ pending, h.Meets p e := by
  induction hc generalizing expanded with
  | done collected => exact ⟨expanded, .done _ _, fun e he => .inl he⟩
  | @expand cls pending collected collected₁ result hbases hrest ihbases ihrest =>
      have hcls : h.Collects [cls] collected collected₁ := .expand hbases (.done _)
      have hmem : ∀ a, a ∈ collected₁ ↔ a ∈ collected ∨ h.IsAncestor cls a := by
        simpa using hcls.mem_iff
      by_cases hexpanded : cls ∈ expanded
      · -- The plain rule expands the class again, and in vain.
        have hsame : collected₁ = collected := by
          apply hcls.eq_of_collected
          rw [List.forall_mem_singleton]
          exact hsettled cls hexpanded cls List.mem_cons_self .refl
        obtain ⟨expanded', hs, hnew⟩ :=
          ihrest expanded (hsettled.rest (fun e he => .inl he) hmem)
        refine ⟨expanded', .pass hexpanded (hsame ▸ hs), fun e he => ?_⟩
        exact (hnew e he).imp_right List.exists_mem_cons_of_exists
      · rw [← addNew_eq] at ihbases
        obtain ⟨expanded₁, hs₁, hnew₁⟩ := ihbases (cls :: expanded) (hsettled.bases hacyclic)
        have hmet : ∀ e ∈ expanded₁, e ∈ expanded ∨ h.Meets cls e := by
          intro e he
          rcases hnew₁ e he with he | ⟨base, hbase, hmeets⟩
          · rcases List.mem_cons.mp he with rfl | he
            · exact .inr .refl
            · exact .inl he
          · exact .inr (.head hbase hmeets)
        obtain ⟨expanded', hs, hnew⟩ := ihrest expanded₁ (hsettled.rest hmet hmem)
        refine ⟨expanded', .expand hexpanded hs₁ hs, fun e he => ?_⟩
        rcases hnew e he with he | hpending
        · rcases hmet e he with he | hmeets
          · exact .inl he
          · exact .inr ⟨cls, List.mem_cons_self, hmeets⟩
        · exact .inr (List.exists_mem_cons_of_exists hpending)

/-- Where no class is an ancestor of its own, the plain rule ends, with the list that the search
gives. -/
theorem plain_rule_gives_ancestors (hacyclic : h.Acyclic) (cls : α) (result : List α) :
    h.Collects [cls] [] result ↔ result = h.ancestors cls := by
  have hsame : ∀ result, h.Collects [cls] [] result → result = h.ancestors cls := by
    intro result hc
    obtain ⟨_, hs, -⟩ := hc.searches hacyclic [] (List.forall_mem_nil _)
    exact hs.eq_ancestors
  refine ⟨hsame result, ?_⟩
  rintro rfl
  obtain ⟨result, hc⟩ := hacyclic.exists_collects [] cls (List.forall_mem_nil _) []
  exact hsame result hc ▸ hc

theorem acyclic_iff : h.Acyclic ↔ ∀ p ∈ h, p.1 ∉ h.ancestors p.1 := by
  constructor
  · intro hacyclic p _ hp
    exact hacyclic p.1 (mem_ancestors.mp hp)
  · intro hlisted cls hcycle
    by_cases hcls : cls ∈ h.map Prod.fst
    · obtain ⟨p, hp, rfl⟩ := List.mem_map.mp hcls
      exact hlisted p hp (mem_ancestors.mpr hcycle)
    · rw [isAncestor_iff, bases_eq_nil hcls] at hcycle
      simp at hcycle

/-- Two bases that share all their ancestors, and one of them declared twice. -/
def sharedBases : Hierarchy String :=
  [("Z", ["X", "Y", "X"]), ("X", ["A", "B"]), ("Y", ["B", "A"]), ("A", ["O"]), ("B", ["O"]),
    ("O", [])]

theorem plain_rule_gives_ancestors_sharedBases :
    sharedBases.Acyclic ∧ sharedBases.Collects ["Z"] [] ["X", "Y", "A", "B", "O"] := by
  have hacyclic : sharedBases.Acyclic := by
    rw [acyclic_iff]
    simp [sharedBases, ancestors, ancestorsFrom, bases, addNew, List.lookup_cons]
  refine ⟨hacyclic, (plain_rule_gives_ancestors hacyclic "Z" _).mpr ?_⟩
  simp [sharedBases, ancestors, ancestorsFrom, bases, addNew, List.lookup_cons]

end CompletionDb.Hierarchy
