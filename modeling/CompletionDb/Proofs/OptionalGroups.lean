import CompletionDb.Proofs.WrittenSignatures
import Mathlib.Data.List.Infix

/-!
# Names in optional groups

A list of names with blanks and square brackets around them, as in `[start,] stop[, step]`, is read
to exactly these names. A name is optional if a group is open at the comma before it, or if a group
opens between that comma and the name. A group that closes between the comma and the name is not
noticed: `stop` is read as optional although no group is open there. Where no bracket closes at such
a place, exactly the names with a group open around them are optional.
-/
namespace CompletionDb.Signature
open Text

/-! ## Lists of names -/

/-- Characters that may stand around a name. -/
def isFiller (c : Char) : Bool := isBlank c || c == '[' || c == ']'

/-- A name with what stands around it, up to the neighbouring commas. -/
structure Slot where
  before : List Char
  name : Identifier
  after : List Char
  filler_before : ∀ c ∈ before, isFiller c = true
  filler_after : ∀ c ∈ after, isFiller c = true

/-- A slot of parts that are checked by evaluation. -/
def Slot.ofChars (before name after : List Char) (hne : name.isEmpty = false)
    (hname : name.all Text.isWord = true) (hbefore : before.all isFiller = true)
    (hafter : after.all isFiller = true) : Slot :=
  ⟨before, ⟨name, List.isEmpty_eq_false_iff.mp hne, List.all_eq_true.mp hname⟩, after,
    List.all_eq_true.mp hbefore, List.all_eq_true.mp hafter⟩

def Slot.chars (x : Slot) : List Char := x.before ++ (x.name.chars ++ x.after)

def slotsChars (slots : List Slot) : List Char := [','].intercalate (slots.map Slot.chars)

/-- The text up to the comma before a name. -/
def ahead (slots : List Slot) (i : ℕ) : List Char :=
  (slots.take i).flatMap fun x => x.chars ++ [',']

@[simp] theorem slotsChars_singleton (x : Slot) : slotsChars [x] = x.chars := by simp [slotsChars]

@[simp] theorem slotsChars_cons_cons (x y : Slot) (slots : List Slot) :
    slotsChars (x :: y :: slots) = x.chars ++ ',' :: slotsChars (y :: slots) := by
  simp [slotsChars, List.intercalate_cons_cons]

@[simp] theorem ahead_zero (slots : List Slot) : ahead slots 0 = [] := rfl

@[simp] theorem ahead_succ (x : Slot) (slots : List Slot) (i : ℕ) :
    ahead (x :: slots) (i + 1) = x.chars ++ ',' :: ahead slots i := by
  simp [ahead]

theorem slotsChars_eq_ahead (slots : List Slot) {i : ℕ} (hi : i < slots.length) :
    slotsChars slots = ahead slots i ++ slotsChars (slots.drop i) := by
  induction i generalizing slots with
  | zero => rfl
  | succ i ih =>
      cases slots with
      | nil => cases hi
      | cons x slots =>
          cases slots with
          | nil => simp at hi
          | cons y slots =>
              simp [ih (y :: slots) (by simpa using hi)]

/-! ## Counting groups -/

/-- The number of open groups behind a text. Closing a group that is not open does nothing. -/
def groupsAfter (groups : ℕ) (cs : List Char) : ℕ :=
  cs.foldl (fun n c => if c = '[' then n + 1 else if c = ']' then n - 1 else n) groups

theorem groupsAfter_append (groups : ℕ) (a b : List Char) :
    groupsAfter groups (a ++ b) = groupsAfter (groupsAfter groups a) b := by
  rw [groupsAfter, List.foldl_append]
  rfl

theorem groupsAfter_of_isWord {cs : List Char} (h : ∀ c ∈ cs, isWord c = true) (groups : ℕ) :
    groupsAfter groups cs = groups := by
  induction cs with
  | nil => rfl
  | cons c cs ih =>
      rw [List.forall_mem_cons] at h
      have hopen : c ≠ '[' := ne_of_class h.1 rfl
      have hclose : c ≠ ']' := ne_of_class h.1 rfl
      simpa [groupsAfter, hopen, hclose] using ih h.2

/-- No bracket closes a group that is not open. -/
def Nested (cs : List Char) : Prop := ∀ front ∈ cs.inits, front.count ']' ≤ front.count '['

instance (cs : List Char) : Decidable (Nested cs) :=
  inferInstanceAs (Decidable (∀ front ∈ cs.inits, front.count ']' ≤ front.count '['))

theorem Nested.mono {front cs : List Char} (h : Nested cs) (hfront : front <+: cs) :
    Nested front :=
  fun part hpart => h part ((List.mem_inits _ _).mpr (((List.mem_inits _ _).mp hpart).trans hfront))

theorem Nested.count_le {cs : List Char} (h : Nested cs) : cs.count ']' ≤ cs.count '[' :=
  h cs ((List.mem_inits _ _).mpr List.prefix_rfl)

theorem Nested.groupsAfter_add {cs : List Char} (h : Nested cs) :
    groupsAfter 0 cs + cs.count ']' = cs.count '[' := by
  induction cs using List.reverseRecOn with
  | nil => rfl
  | append_singleton cs c ih =>
      have hfront := ih (h.mono (List.prefix_append cs [c]))
      have hle := h.count_le
      rw [List.count_append, List.count_append] at hle
      rw [groupsAfter_append, List.count_append, List.count_append]
      by_cases hopen : c = '['
      · subst hopen
        change groupsAfter 0 cs + 1 + (cs.count ']' + 0) = cs.count '[' + 1
        omega
      · by_cases hclose : c = ']'
        · subst hclose
          change cs.count ']' + 1 ≤ cs.count '[' + 0 at hle
          change groupsAfter 0 cs - 1 + (cs.count ']' + 1) = cs.count '[' + 0
          omega
        · simpa [groupsAfter, hopen, hclose] using hfront

/-- More groups are opened than closed. -/
def leavesOpen (cs : List Char) : Bool := cs.count ']' < cs.count '['

theorem Nested.leavesOpen_eq {cs : List Char} (h : Nested cs) :
    leavesOpen cs = decide (0 < groupsAfter 0 cs) := by
  have hcount := h.groupsAfter_add
  rw [leavesOpen, decide_eq_decide]
  omega

/-! ## Reading -/

namespace Cut

/-- Blanks are kept, brackets are counted, and a name that has not begun becomes optional. -/
theorem foldl_step_filler {cs : List Char} (h : ∀ c ∈ cs, isFiller c = true) (text : List Char)
    (groups : ℕ) (optional : Bool) : cs.foldl step (reading text groups optional false) =
      reading (text ++ cs.filter isBlank) (groupsAfter groups cs)
        (optional || (isAllBlank text && cs.contains '[')) false := by
  induction cs generalizing text groups optional with
  | nil => simp [groupsAfter]
  | cons c cs ih =>
      rw [List.forall_mem_cons, isFiller, Bool.or_eq_true, Bool.or_eq_true, beq_iff_eq,
        beq_iff_eq] at h
      obtain ⟨(hblank | rfl) | rfl, hcs⟩ := h
      · have hopen : c ≠ '[' := ne_of_class hblank rfl
        have hclose : c ≠ ']' := ne_of_class hblank rfl
        have hkeep : (reading text groups optional false).step c =
            reading (text ++ [c]) groups optional false := by
          rw [step_of_not_mem_marks rfl (not_mem_marks_of_isBlank hblank)]
          simp [keep, reading]
        rw [List.foldl_cons, hkeep, ih hcs]
        simp [hblank, hopen, hclose, groupsAfter, isAllBlank, Ne.symm hopen]
      · have hfilter : ('[' :: cs).filter isBlank = cs.filter isBlank := rfl
        rw [List.foldl_cons, step_group_open, ih hcs, hfilter, Bool.or_assoc]
        cases isAllBlank text <;> simp [groupsAfter]
      · have hfilter : (']' :: cs).filter isBlank = cs.filter isBlank := rfl
        have hcontains : (']' :: cs).contains '[' = cs.contains '[' := rfl
        rw [List.foldl_cons, step_group_close, ih hcs, hfilter, hcontains]
        rfl

/-- A name with its surroundings. -/
theorem foldl_step_slot (x : Slot) (groups : ℕ) (optional : Bool) :
    x.chars.foldl step (reading [] groups optional false) =
      reading (x.before.filter isBlank ++ (x.name.chars ++ x.after.filter isBlank))
        (groupsAfter groups x.chars) (optional || x.before.contains '[') false := by
  have hname : ∀ c ∈ x.name.chars, c ∉ marks :=
    fun c hc => not_mem_marks_of_isDottedWord (x.name.isDottedWord c hc)
  have hbegun : isAllBlank (x.before.filter isBlank ++ x.name.chars) = false :=
    not_isAllBlank_of_trim x.name.ne_nil (trim_of_isDottedWord x.name.isDottedWord) _
  have hgroups : groupsAfter groups x.chars =
      groupsAfter (groupsAfter groups x.before) x.after := by
    rw [Slot.chars, groupsAfter_append, groupsAfter_append, groupsAfter_of_isWord x.name.isWord]
  rw [hgroups, Slot.chars, List.foldl_append, foldl_step_filler x.filler_before, List.foldl_append,
    foldl_step_of_not_mem_marks rfl hname, keepAll_reading, foldl_step_filler x.filler_after,
    List.nil_append, hbegun, List.append_assoc]
  simp [isAllBlank]

theorem pieceOf_slot (x : Slot) (optional : Bool) :
    pieceOf (x.before.filter isBlank ++ (x.name.chars ++ x.after.filter isBlank)) optional =
      [⟨x.name.chars, optional⟩] :=
  pieceOf_pad (fun _ hc => List.of_mem_filter hc) (fun _ hc => List.of_mem_filter hc)
    x.name.ne_nil (trim_of_isDottedWord x.name.isDottedWord) optional

/-- The pieces of the names behind some text. -/
theorem finish_slots (front : List Char) (slots : List Slot) :
    (reading [] (groupsAfter 0 front) (0 < groupsAfter 0 front) false).finish (slotsChars slots) =
      slots.mapIdx fun i x => ⟨x.name.chars,
        decide (0 < groupsAfter 0 (front ++ ahead slots i)) || x.before.contains '['⟩ := by
  induction slots generalizing front with
  | nil => rfl
  | cons x slots ih =>
      cases slots with
      | nil =>
          rw [slotsChars_singleton, ← List.append_nil x.chars, finish_append, foldl_step_slot,
            finish_nil, pieceOf_slot]
          simp
      | cons y slots =>
          have hgroups : groupsAfter (groupsAfter 0 front) x.chars =
              groupsAfter 0 (front ++ (x.chars ++ [','])) := by
            rw [← groupsAfter_append, ← List.append_assoc, groupsAfter_append 0 _ [',']]
            rfl
          rw [slotsChars_cons_cons, finish_append, foldl_step_slot, finish_comma, pieceOf_slot,
            hgroups, ih]
          simp [List.mapIdx_cons]

end Cut

/-- The parameter that a name stands for. -/
def Slot.parameter (optional : Bool) (x : Slot) : Parameter where
  name := String.ofList x.name.chars
  default := if optional then some "None" else none

@[simp] theorem Slot.parameter?_name (builtin : String) (optional : Bool) (x : Slot) :
    Piece.parameter? builtin ⟨x.name.chars, optional⟩ = some (x.parameter optional) := by
  have h := ParamText.parameter?_chars builtin optional { name := x.name }
  simpa [ParamText.chars, ParamText.front, ParamText.meaning, starChars, typeChars, defaultChars,
    Slot.parameter] using h

theorem filterMap_mapIdx {α β γ : Type} {f : ℕ → α → β} {g : β → Option γ} {k : ℕ → α → γ}
    (h : ∀ i a, g (f i a) = some (k i a)) (l : List α) :
    (l.mapIdx f).filterMap g = l.mapIdx k := by
  induction l generalizing f k with
  | nil => rfl
  | cons a l ih => simp [List.mapIdx_cons, h, ih fun i => h (i + 1)]

theorem closed_filler {cs : List Char} (h : ∀ c ∈ cs, isFiller c = true) : Closed cs := by
  refine closed_of_forall fun c hc => ?_
  have hne : ∀ {d : Char}, isFiller d = false → c ≠ d := fun hd => ne_of_class (h c hc) hd
  exact ⟨by simp [isQuote, hne (d := '\x27') rfl, hne (d := '"') rfl], hne rfl, hne rfl⟩

theorem closed_slotsChars (slots : List Slot) : Closed (slotsChars slots) := by
  have hslot : ∀ x : Slot, Closed x.chars := fun x =>
    (closed_filler x.filler_before).append ((closed_of_not_mem_marks fun c hc =>
      not_mem_marks_of_isDottedWord (x.name.isDottedWord c hc)).append
        (closed_filler x.filler_after))
  induction slots with
  | nil => exact closed_nil
  | cons x slots ih =>
      cases slots with
      | nil => simpa [slotsChars] using hslot x
      | cons y slots =>
          rw [slotsChars_cons_cons]
          exact (hslot x).append (Closed.cons rfl (by decide) (by decide) ih)

/-- If nothing closes between a comma and a name, a group is open at the name if one is open at the
comma or opens behind it. -/
theorem leavesOpen_append {front cs : List Char} (hfront : Nested front) (hcs : ']' ∉ cs) :
    leavesOpen (front ++ cs) = (leavesOpen front || cs.contains '[') := by
  have hle := hfront.count_le
  have hnone : cs.count ']' = 0 := List.count_eq_zero.mpr hcs
  have hsome : cs.contains '[' = decide (0 < cs.count '[') := by
    rw [Bool.eq_iff_iff, List.contains_iff_mem, decide_eq_true_eq, List.count_pos_iff]
  rw [hsome, leavesOpen, leavesOpen, List.count_append, List.count_append, hnone,
    ← Bool.decide_or, decide_eq_decide]
  omega

/-- A list of names is read to these names. A name is optional if a group is open at the comma
before it or opens between the two. If no bracket closes between a comma and the next name, these
are the names before which more groups are opened than closed. -/
theorem optional_groups_read (builtin : String) (placeholder : TypeName) (f : Identifier)
    (slots : List Slot) (h : Nested (slotsChars slots)) :
    parseLine builtin placeholder (lineOf f.chars (slotsChars slots) []) =
        some ⟨slots.mapIdx fun i x =>
          x.parameter (leavesOpen (ahead slots i) || x.before.contains '['), placeholder⟩ ∧
      ((∀ x ∈ slots, ']' ∉ x.before) →
        parseLine builtin placeholder (lineOf f.chars (slotsChars slots) []) =
          some ⟨slots.mapIdx fun i x => x.parameter (leavesOpen (ahead slots i ++ x.before)),
            placeholder⟩) := by
  have hahead : ∀ i, i < slots.length → Nested (ahead slots i) := fun i hi =>
    h.mono ⟨_, (slotsChars_eq_ahead slots hi).symm⟩
  have hread : parseLine builtin placeholder (lineOf f.chars (slotsChars slots) []) =
      some ⟨slots.mapIdx fun i x =>
        x.parameter (leavesOpen (ahead slots i) || x.before.contains '['), placeholder⟩ := by
    have hpieces : pieces (slotsChars slots) = slots.mapIdx fun i x => ⟨x.name.chars,
        leavesOpen (ahead slots i) || x.before.contains '['⟩ := by
      refine (Cut.finish_slots [] slots).trans (List.mapIdx_eq_mapIdx_iff.mpr fun i hi => ?_)
      rw [List.nil_append, (hahead i hi).leavesOpen_eq]
    rw [parseLine_lineOf f.ne_nil f.isDottedWord (balanced_of_closed (closed_slotsChars slots) []),
      overloadOf, hpieces, filterMap_mapIdx fun i x => x.parameter?_name builtin _]
    rfl
  refine ⟨hread, fun hbefore => ?_⟩
  have hmarks : (slots.mapIdx fun i x =>
      x.parameter (leavesOpen (ahead slots i) || x.before.contains '[')) =
        slots.mapIdx fun i x => x.parameter (leavesOpen (ahead slots i ++ x.before)) := by
    refine List.mapIdx_eq_mapIdx_iff.mpr fun i hi => ?_
    rw [leavesOpen_append (hahead i hi) (hbefore _ (List.getElem_mem hi))]
  rw [hread, hmarks]

/-- The list `[a], b [, c[ , d]], e`. -/
def groupedSlots : List Slot :=
  [.ofChars ['['] ['a'] [']'] rfl rfl rfl rfl,
    .ofChars [' '] ['b'] [' ', '['] rfl rfl rfl rfl,
    .ofChars [' '] ['c'] ['[', ' '] rfl rfl rfl rfl,
    .ofChars [' '] ['d'] [']', ']'] rfl rfl rfl rfl,
    .ofChars [' '] ['e'] [] rfl rfl rfl rfl]

theorem optional_groups_read_grouped :
    String.ofList (slotsChars groupedSlots) = "[a], b [, c[ , d]], e" ∧
      Nested (slotsChars groupedSlots) ∧ (∀ x ∈ groupedSlots, ']' ∉ x.before) ∧
      parseLine "builtins" ⟨"builtins", "object"⟩ (lineOf ['f'] (slotsChars groupedSlots) []) =
        some ⟨[{ name := "a", default := some "None" }, { name := "b" },
          { name := "c", default := some "None" }, { name := "d", default := some "None" },
          { name := "e" }], ⟨"builtins", "object"⟩⟩ := by
  have hnested : Nested (slotsChars groupedSlots) := by decide +kernel
  have hbefore : ∀ x ∈ groupedSlots, ']' ∉ x.before := by decide
  refine ⟨by decide +kernel, hnested, hbefore, ?_⟩
  have hread := (optional_groups_read "builtins" ⟨"builtins", "object"⟩
    ⟨['f'], by decide, List.all_eq_true.mp rfl⟩ groupedSlots hnested).2 hbefore
  exact hread.trans (by decide +kernel)

/-- The list `[start,] stop[, step]`. -/
def rangeSlots : List Slot :=
  [.ofChars ['['] ['s', 't', 'a', 'r', 't'] [] rfl rfl rfl rfl,
    .ofChars [']', ' '] ['s', 't', 'o', 'p'] ['['] rfl rfl rfl rfl,
    .ofChars [' '] ['s', 't', 'e', 'p'] [']'] rfl rfl rfl rfl]

/-- The second name stands outside of the groups and is read as optional. -/
theorem closed_group_unnoticed :
    String.ofList (slotsChars rangeSlots) = "[start,] stop[, step]" ∧
      Nested (slotsChars rangeSlots) ∧
      (slotsChars rangeSlots).count ']' = (slotsChars rangeSlots).count '[' ∧
      parseLine "builtins" ⟨"builtins", "object"⟩ (lineOf ['f'] (slotsChars rangeSlots) []) =
        some ⟨[{ name := "start", default := some "None" },
          { name := "stop", default := some "None" },
          { name := "step", default := some "None" }], ⟨"builtins", "object"⟩⟩ ∧
      (rangeSlots.mapIdx fun i x => x.parameter (leavesOpen (ahead rangeSlots i ++ x.before))) =
        [{ name := "start", default := some "None" }, { name := "stop" },
          { name := "step", default := some "None" }] := by
  decide +kernel

end CompletionDb.Signature
