import Mathlib.Data.List.DropRight

/-!
# Runs of one class of characters

All scanners of this library read runs: digits, characters of a name, blanks. A run ends where the
rest of the text `Stops` it, and begins where the text before it `Ends` otherwise. A reader that
takes what it can of a class takes exactly the run, if the rest stops it.
-/
namespace CompletionDb.Text

variable {p q : Char → Bool} {c d : Char} {a b cs run rest text : List Char}

theorem ne_of_class (hc : p c = true) (hd : p d = false) : c ≠ d := by
  rintro rfl
  rw [hc] at hd
  cases hd

/-! ## Where a run ends -/

/-- A run of the class that stands before these characters ends there. -/
def Stops (p : Char → Bool) (cs : List Char) : Prop := ∀ c ∈ cs.head?, p c = false

@[simp] theorem stops_nil (p : Char → Bool) : Stops p [] := by simp [Stops]

@[simp] theorem stops_cons_iff : Stops p (c :: cs) ↔ p c = false := by simp [Stops]

theorem stops_cons (hc : p c = false) (cs : List Char) : Stops p (c :: cs) := stops_cons_iff.mpr hc

instance Stops.decidable (p : Char → Bool) : (cs : List Char) → Decidable (Stops p cs)
  | [] => isTrue (stops_nil p)
  | _ :: _ => decidable_of_iff _ stops_cons_iff.symm

theorem stops_of_forall (h : ∀ c ∈ cs, p c = false) : Stops p cs :=
  fun c hc => h c (List.mem_of_mem_head? hc)

theorem stops_dropWhile (p : Char → Bool) (cs : List Char) : Stops p (cs.dropWhile p) := by
  intro c hc
  have h := List.head?_dropWhile_not p cs
  rw [Option.mem_def.mp hc] at h
  simpa using h

/-- What ends the runs of a class ends those of a smaller one. -/
theorem Stops.mono (hqp : ∀ c, q c = true → p c = true) (h : Stops p cs) : Stops q cs := by
  intro c hc
  have hp := h c hc
  cases hq : q c with
  | false => rfl
  | true => rw [hqp c hq] at hp; cases hp

theorem Stops.append (ha : Stops p a) (hb : Stops p b) : Stops p (a ++ b) := by
  cases a with
  | nil => exact hb
  | cons c a => exact stops_cons (ha c rfl) _

theorem takeWhile_run (hrun : ∀ c ∈ run, p c = true) (hrest : Stops p rest) :
    (run ++ rest).takeWhile p = run := by
  rw [List.takeWhile_append_of_pos hrun]
  cases rest with
  | nil => simp
  | cons c rest => simp [hrest c rfl]

theorem dropWhile_run (hrun : ∀ c ∈ run, p c = true) (hrest : Stops p rest) :
    (run ++ rest).dropWhile p = rest := by
  rw [List.dropWhile_append_of_pos hrun]
  cases rest with
  | nil => rfl
  | cons c rest => simp [hrest c rfl]

/-! ## Where a run begins -/

/-- A run of the class that stands behind these characters begins there. -/
def Ends (p : Char → Bool) (cs : List Char) : Prop := ∀ c ∈ cs.getLast?, p c = false

theorem ends_iff_stops_reverse : Ends p cs ↔ Stops p cs.reverse := by
  rw [Ends, Stops, List.head?_reverse]

theorem ends_of_forall (h : ∀ c ∈ cs, p c = false) : Ends p cs :=
  fun c hc => h c (List.mem_of_mem_getLast? hc)

theorem Ends.append (ha : Ends p a) (hb : Ends p b) : Ends p (a ++ b) := by
  rw [ends_iff_stops_reverse] at ha hb ⊢
  rw [List.reverse_append]
  exact hb.append ha

/-- Only the last part matters if there is one. -/
theorem ends_append_of_ne_nil (a : List Char) (hne : b ≠ []) (hb : Ends p b) : Ends p (a ++ b) := by
  intro c hc
  rw [List.getLast?_append_of_ne_nil _ hne] at hc
  exact hb c hc

/-! ## Runs inside a text -/

/-- Cut away characters of a class at both ends. -/
theorem exists_inner (p : Char → Bool) (cs : List Char) : ∃ before inner after,
    cs = before ++ (inner ++ after) ∧ (∀ c ∈ before, p c = true) ∧ (∀ c ∈ after, p c = true) ∧
      Stops p inner ∧ Ends p inner := by
  refine ⟨cs.takeWhile p, (cs.dropWhile p).rdropWhile p, (cs.dropWhile p).rtakeWhile p,
    ?_, fun c hc => List.mem_takeWhile_imp hc, fun c hc => List.mem_rtakeWhile_imp hc, ?_, ?_⟩
  · rw [List.rdropWhile_append_rtakeWhile, List.takeWhile_append_dropWhile]
  · intro c hc
    have hdrop := stops_dropWhile p cs
    have hsplit : (cs.dropWhile p).rdropWhile p ++ (cs.dropWhile p).rtakeWhile p =
        cs.dropWhile p := List.rdropWhile_append_rtakeWhile
    rw [← hsplit] at hdrop
    exact hdrop c (by rw [List.head?_append, Option.mem_def.mp hc]; rfl)
  · rw [ends_iff_stops_reverse, List.rdropWhile, List.reverse_reverse]
    exact stops_dropWhile p _

/-- The characters of the class next to each other in a text, with none of the class before or
behind them. -/
def MaximalRun (p : Char → Bool) (run text : List Char) : Prop :=
  run ≠ [] ∧ (∀ c ∈ run, p c = true) ∧
    ∃ before after, text = before ++ (run ++ after) ∧ Ends p before ∧ Stops p after

theorem MaximalRun.isInfix (h : MaximalRun p run text) : run <:+: text := by
  obtain ⟨-, -, before, after, rfl, -, -⟩ := h
  exact ⟨before, after, by simp⟩

end CompletionDb.Text
