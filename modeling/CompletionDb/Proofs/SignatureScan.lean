import CompletionDb.Signature.Basic
import CompletionDb.Proofs.CharacterRuns

/-!
# How a signature line is scanned

Two scanners read a parameter list: one looks for the parenthesis that closes it, the other cuts it
at its commas. Both skip quoted strings in the same way. A text is `Closed` when the first scanner
passes over it at any depth, and the second one keeps each character that is not a mark. What the
second scanner has finished does not matter to what it reads afterwards, so the pieces of a list can
be told from the front, one after another.
-/
namespace CompletionDb

namespace Text

/-! ## Classes of characters -/

/-- The code points of blank characters. -/
def blankCodes : List ℕ :=
  [0x09, 0x0A, 0x0B, 0x0C, 0x0D, 0x20, 0x85, 0xA0, 0x1680, 0x2000, 0x2001, 0x2002, 0x2003, 0x2004,
    0x2005, 0x2006, 0x2007, 0x2008, 0x2009, 0x200A, 0x2028, 0x2029, 0x202F, 0x205F, 0x3000]

theorem toNat_mem_blankCodes {c : Char} (h : isBlank c = true) : c.toNat ∈ blankCodes := by
  simp only [isBlank, Bool.or_eq_true, Bool.and_eq_true, decide_eq_true_eq, beq_iff_eq] at h
  simp only [blankCodes, List.mem_cons, List.not_mem_nil, or_false]
  omega

theorem isDottedWord_of_isBlank {c : Char} (h : isBlank c = true) : isDottedWord c = false := by
  have hcodes : ∀ n ∈ blankCodes, isDottedWord (Char.ofNat n) = false := by
    decide +kernel
  rw [← Char.ofNat_toNat c]
  exact hcodes _ (toNat_mem_blankCodes h)

theorem isDottedWord_of_isWord {c : Char} (h : isWord c = true) : isDottedWord c = true := by
  rw [isDottedWord, h, Bool.true_or]

theorem isWord_of_not_isDottedWord {c : Char} (h : isDottedWord c = false) : isWord c = false := by
  rw [isDottedWord, Bool.or_eq_false_iff] at h
  exact h.1

theorem not_isBlank_of_isDottedWord {c : Char} (h : isDottedWord c = true) : isBlank c = false := by
  cases hblank : isBlank c with
  | false => rfl
  | true => rw [isDottedWord_of_isBlank hblank] at h; cases h

theorem isBlank_of_isGap {c : Char} (h : isGap c = true) : isBlank c = true := by
  simp only [isGap, Bool.or_eq_true, beq_iff_eq] at h
  rcases h with ((rfl | rfl) | rfl) | rfl <;> rfl

theorem not_isGap_of_not_isBlank {c : Char} (h : isBlank c = false) : isGap c = false := by
  cases hgap : isGap c with
  | false => rfl
  | true => rw [isBlank_of_isGap hgap] at h; cases h

/-! ## Blanks at the ends -/

theorem trim_eq_rdropWhile (cs : List Char) :
    trim cs = (cs.dropWhile isBlank).rdropWhile isBlank := rfl

theorem trim_eq_self_iff {cs : List Char} :
    trim cs = cs ↔ Stops isBlank cs ∧ Ends isBlank cs := by
  have hback : cs.rdropWhile isBlank = cs ↔ Ends isBlank cs := by
    rw [List.rdropWhile_eq_self_iff]
    constructor
    · intro h c hc
      obtain ⟨hne, rfl⟩ := List.mem_getLast?_eq_getLast hc
      simpa using h hne
    · intro h hne
      simpa using h _ (List.getLast?_eq_getLast_of_ne_nil hne)
  constructor
  · intro h
    have hfront : cs.dropWhile isBlank = cs := by
      refine (List.dropWhile_suffix isBlank).sublist.eq_of_length_le ?_
      conv_lhs => rw [← h, trim_eq_rdropWhile]
      exact (List.rdropWhile_prefix isBlank _).length_le
    refine ⟨?_, hback.mp (by rw [trim_eq_rdropWhile, hfront] at h; exact h)⟩
    have hstop := stops_dropWhile isBlank cs
    rwa [hfront] at hstop
  · intro h
    have hfront : cs.dropWhile isBlank = cs := dropWhile_run (List.forall_mem_nil _) h.1
    rw [trim_eq_rdropWhile, hfront, hback]
    exact h.2

/-- A trimmed text is not blank, whatever stands before it. -/
theorem not_isAllBlank_of_trim {text : List Char} (hne : text ≠ []) (htrim : trim text = text)
    (gap : List Char) : isAllBlank (gap ++ text) = false := by
  obtain ⟨c, cs, rfl⟩ := List.exists_cons_of_ne_nil hne
  have hfirst := (trim_eq_self_iff.mp htrim).1 c rfl
  rw [isAllBlank, List.all_eq_false]
  exact ⟨c, by simp, by simp [hfirst]⟩

theorem trim_append_self {a b : List Char} (ha : trim a = a) (hb : trim b = b) :
    trim (a ++ b) = a ++ b := by
  rw [trim_eq_self_iff] at ha hb ⊢
  exact ⟨ha.1.append hb.1, ha.2.append hb.2⟩

theorem trim_pad {before after : List Char} (hbefore : ∀ c ∈ before, isBlank c = true)
    (hafter : ∀ c ∈ after, isBlank c = true) (cs : List Char) :
    trim (before ++ (cs ++ after)) = trim cs := by
  rw [trim_eq_rdropWhile, trim_eq_rdropWhile, List.dropWhile_append_of_pos hbefore]
  have hend : after.dropWhile isBlank = [] := List.dropWhile_eq_nil_iff.mpr hafter
  have hback : ∀ ds : List Char, (ds ++ after).rdropWhile isBlank = ds.rdropWhile isBlank := by
    intro ds
    rw [List.rdropWhile, List.rdropWhile, List.reverse_append,
      List.dropWhile_append_of_pos (by simpa using hafter)]
  by_cases hcs : ∀ c ∈ cs, isBlank c = true
  · rw [List.dropWhile_append_of_pos hcs, hend, List.dropWhile_eq_nil_iff.mpr hcs]
  · rw [List.dropWhile_append, if_neg (by simpa using hcs), hback]

/-- Trimming takes blanks away at both ends and nothing else. -/
theorem exists_trim_pad (cs : List Char) : ∃ before after, cs = before ++ (trim cs ++ after) ∧
    (∀ c ∈ before, isBlank c = true) ∧ ∀ c ∈ after, isBlank c = true := by
  refine ⟨cs.takeWhile isBlank, (cs.dropWhile isBlank).rtakeWhile isBlank, ?_, ?_, ?_⟩
  · rw [trim_eq_rdropWhile, List.rdropWhile_append_rtakeWhile, List.takeWhile_append_dropWhile]
  · exact fun c hc => List.mem_takeWhile_imp hc
  · exact fun c hc => List.mem_rtakeWhile_imp hc

theorem trim_of_isDottedWord {cs : List Char} (h : ∀ c ∈ cs, isDottedWord c = true) :
    trim cs = cs :=
  trim_eq_self_iff.mpr
    ⟨fun c hc => not_isBlank_of_isDottedWord (h c (List.mem_of_mem_head? hc)),
      fun c hc => not_isBlank_of_isDottedWord (h c (List.mem_of_mem_getLast? hc))⟩

end Text

namespace Signature
open Text

/-- A name without dots. -/
structure Identifier where
  chars : List Char
  ne_nil : chars ≠ []
  isWord : ∀ c ∈ chars, Text.isWord c = true

theorem Identifier.isDottedWord (x : Identifier) : ∀ c ∈ x.chars, Text.isDottedWord c = true :=
  fun c hc => isDottedWord_of_isWord (x.isWord c hc)

/-! ## The closing parenthesis -/

/-- Text that the search for the closing parenthesis passes over, at any depth. -/
def Closed (cs : List Char) : Prop :=
  ∀ depth taken rest, balancedFrom depth none taken (cs ++ rest) =
    balancedFrom depth none (cs.reverse ++ taken) rest

theorem closed_nil : Closed [] := by
  intro depth taken rest
  rfl

theorem Closed.append {a b : List Char} (ha : Closed a) (hb : Closed b) : Closed (a ++ b) := by
  intro depth taken rest
  rw [List.append_assoc, ha, hb, List.reverse_append, List.append_assoc]

theorem closed_singleton {c : Char} (hquote : isQuote c = false) (hopen : c ≠ '(')
    (hclose : c ≠ ')') : Closed [c] := by
  intro depth taken rest
  simp [balancedFrom, hquote, hopen, hclose]

theorem Closed.cons {c : Char} {cs : List Char} (hquote : isQuote c = false) (hopen : c ≠ '(')
    (hclose : c ≠ ')') (hcs : Closed cs) : Closed (c :: cs) :=
  (closed_singleton hquote hopen hclose).append hcs

theorem closed_of_forall {cs : List Char}
    (h : ∀ c ∈ cs, isQuote c = false ∧ c ≠ '(' ∧ c ≠ ')') : Closed cs := by
  induction cs with
  | nil => exact closed_nil
  | cons c cs ih =>
      rw [List.forall_mem_cons] at h
      exact Closed.cons h.1.1 h.1.2.1 h.1.2.2 (ih h.2)

theorem balancedFrom_inside {q : Char} {text : List Char} (h : q ∉ text) (depth : ℕ)
    (taken rest : List Char) : balancedFrom depth (some q) taken (text ++ rest) =
      balancedFrom depth (some q) (text.reverse ++ taken) rest := by
  induction text generalizing taken with
  | nil => rfl
  | cons c text ih =>
      rw [List.mem_cons, not_or] at h
      simp [balancedFrom, quoteAfter, Ne.symm h.1, ih h.2]

theorem closed_string {q : Char} {text : List Char} (hq : isQuote q = true) (h : q ∉ text) :
    Closed (q :: (text ++ [q])) := by
  intro depth taken rest
  simp [balancedFrom, quoteAfter, hq, balancedFrom_inside h]

theorem Closed.parenthesised {cs : List Char} (h : Closed cs) : Closed ('(' :: (cs ++ [')'])) := by
  intro depth taken rest
  have hquote : isQuote '(' = false := rfl
  have hquote' : isQuote ')' = false := rfl
  simp [balancedFrom, hquote, hquote', h (depth + 1)]

theorem balanced_of_closed {params : List Char} (h : Closed params) (rest : List Char) :
    balanced ('(' :: (params ++ ')' :: rest)) = some (params, rest) := by
  have hquote : isQuote ')' = false := rfl
  simp [balanced, h 0, balancedFrom, hquote]

theorem quoteAfter_of_not_isQuote {c : Char} (hc : isQuote c = false) :
    quoteAfter none c = none := by
  simp [quoteAfter, hc]

/-- What one character does to the depth of the search when it goes on. -/
inductive Advances : ℕ → Option Char → Char → ℕ → Prop
  | quoted {depth : ℕ} {quote : Option Char} {c : Char} : (quote.isSome || isQuote c) = true →
      Advances depth quote c depth
  | opening {depth : ℕ} : Advances depth none '(' (depth + 1)
  | closing {depth : ℕ} : Advances (depth + 1) none ')' depth
  | other {depth : ℕ} {c : Char} : isQuote c = false → c ≠ '(' → c ≠ ')' →
      Advances depth none c depth

/-- A step of the search goes on in a way that does not depend on the text, or it ends the search
at the outer closing parenthesis. -/
theorem balancedFrom_step (depth : ℕ) (quote : Option Char) (c : Char) :
    (∃ depth', Advances depth quote c depth' ∧
      ∀ taken cs, balancedFrom depth quote taken (c :: cs) =
        balancedFrom depth' (quoteAfter quote c) (c :: taken) cs) ∨
    (quote = none ∧ depth = 0 ∧ c = ')' ∧
      ∀ taken cs, balancedFrom depth quote taken (c :: cs) = some (taken.reverse, cs)) := by
  by_cases hquote : quote.isSome || isQuote c
  · left
    refine ⟨depth, .quoted hquote, fun taken cs => ?_⟩
    rw [balancedFrom.eq_def]
    exact if_pos hquote
  · obtain ⟨rfl, hc⟩ : quote = none ∧ isQuote c = false := by simpa using hquote
    rw [quoteAfter_of_not_isQuote hc]
    by_cases hopen : c = '('
    · subst hopen
      left
      exact ⟨depth + 1, .opening, fun taken cs => by simp [balancedFrom, hc]⟩
    by_cases hclose : c = ')'
    · subst hclose
      cases depth with
      | zero =>
          right
          exact ⟨rfl, rfl, rfl, fun taken cs => by simp [balancedFrom, hc]⟩
      | succ depth =>
          left
          exact ⟨depth, .closing, fun taken cs => by simp [balancedFrom, hc]⟩
    · left
      exact ⟨depth, .other hc hopen hclose,
        fun taken cs => by simp [balancedFrom, hc, hopen, hclose]⟩

/-- What the search returns is cut out of the text that it reads. -/
theorem balancedFrom_cut {depth : ℕ} {quote : Option Char} {taken cs params rest : List Char}
    (h : balancedFrom depth quote taken cs = some (params, rest)) :
    ∃ more, params = taken.reverse ++ more ∧ cs = more ++ ')' :: rest := by
  induction cs generalizing depth quote taken with
  | nil => cases h
  | cons c cs ih =>
      rcases balancedFrom_step depth quote c with ⟨depth', -, hstep⟩ | ⟨-, -, rfl, hend⟩
      · rw [hstep] at h
        obtain ⟨more, hparams, hcs⟩ := ih h
        exact ⟨c :: more, by simpa using hparams, by simp [hcs]⟩
      · rw [hend] at h
        obtain ⟨rfl, rfl⟩ : taken.reverse = params ∧ cs = rest := by simpa using h
        exact ⟨[], by simp, rfl⟩

theorem balanced_cut {cs params rest : List Char} (h : balanced cs = some (params, rest)) :
    cs = '(' :: (params ++ ')' :: rest) := by
  cases cs with
  | nil => cases h
  | cons c cs =>
      rw [balanced] at h
      split_ifs at h with hopen
      obtain ⟨more, hparams, hcs⟩ := balancedFrom_cut h
      simp [hopen, hparams, hcs]

/-! ## Lines -/

/-- A line from a name, a parameter list and what follows the list. -/
def lineOf (name params rest : List Char) : List Char := name ++ '(' :: (params ++ ')' :: rest)

/-- What a line with a given parameter list stands for. -/
def overloadOf (builtin : String) (placeholder : TypeName) (params rest : List Char) :
    Overload where
  params := (pieces params).filterMap (Piece.parameter? builtin)
  returns := ((readReturn rest).map (resolveChars builtin)).getD placeholder

theorem parseLine_lineOf {name params rest : List Char} (hne : name ≠ [])
    (hname : ∀ c ∈ name, isDottedWord c = true)
    (h : balanced ('(' :: (params ++ ')' :: rest)) = some (params, rest))
    (builtin : String) (placeholder : TypeName) :
    parseLine builtin placeholder (lineOf name params rest) =
      some (overloadOf builtin placeholder params rest) := by
  have hstop : Stops isDottedWord ('(' :: (params ++ ')' :: rest)) := stops_cons rfl _
  simp [parseLine, lineOf, takeWhile_run hname hstop, dropWhile_run hname hstop, h, hne, overloadOf]

/-- Every accepted line is made of a name, a parameter list and the rest. -/
theorem exists_lineOf_of_parseLine {builtin : String} {placeholder : TypeName} {line : List Char}
    {o : Overload} (h : parseLine builtin placeholder line = some o) :
    ∃ name params rest, line = lineOf name params rest ∧ name ≠ [] ∧
      (∀ c ∈ name, isDottedWord c = true) ∧
      balanced ('(' :: (params ++ ')' :: rest)) = some (params, rest) ∧
      o = overloadOf builtin placeholder params rest := by
  rw [parseLine] at h
  split_ifs at h with hname
  cases hlist : balanced (line.dropWhile isDottedWord) with
  | none =>
      rw [hlist] at h
      cases h
  | some cut =>
      obtain ⟨params, rest⟩ := cut
      rw [hlist] at h
      have hcut := balanced_cut hlist
      refine ⟨line.takeWhile isDottedWord, params, rest, ?_, by simpa using hname, ?_, ?_, ?_⟩
      · rw [lineOf, ← hcut, List.takeWhile_append_dropWhile]
      · exact fun c hc => List.mem_takeWhile_imp hc
      · rw [← hcut, hlist]
      · exact (Option.some.inj h).symm

/-! ## Cutting at commas -/

/-- The characters that the cutting of a parameter list looks at. -/
def marks : List Char :=
  ['\x27', '"', '=', '[', ']', '\x7b', '\x7d', '(', ')', ',']

theorem not_mem_marks {p : Char → Bool} (hp : marks.all (fun m => !p m) = true) {c : Char}
    (h : p c = true) : c ∉ marks := by
  intro hc
  have hmark := List.all_eq_true.mp hp c hc
  rw [h] at hmark
  cases hmark

theorem not_mem_marks_of_isDottedWord {c : Char} (h : isDottedWord c = true) : c ∉ marks :=
  not_mem_marks (by decide) h

theorem not_mem_marks_of_isBlank {c : Char} (h : isBlank c = true) : c ∉ marks :=
  not_mem_marks (by decide) h

theorem closed_of_not_mem_marks {cs : List Char} (h : ∀ c ∈ cs, c ∉ marks) : Closed cs := by
  refine closed_of_forall fun c hc => ?_
  have hmark := h c hc
  simp only [marks, List.mem_cons, List.not_mem_nil, or_false, not_or] at hmark
  simp [isQuote, hmark]

/-- What one character does to a list that is being cut: it joins the piece, it opens or closes an
optional group, or it ends the piece. -/
inductive Effect
  | keep (nest : ℕ) (inDefault : Bool) (quote : Option Char)
  | group (groups : ℕ) (optional : Bool)
  | cut

namespace Cut

def effect (s : Cut) (c : Char) : Effect :=
  if s.quote.isSome || isQuote c then .keep s.nest s.inDefault (quoteAfter s.quote c)
  else if c = '=' ∧ s.nest = 0 then .keep s.nest true s.quote
  else if (c = '[' ∨ c = '\x7b') ∧ s.inDefault then .keep (s.nest + 1) s.inDefault s.quote
  else if (c = ']' ∨ c = '\x7d') ∧ 0 < s.nest then .keep (s.nest - 1) s.inDefault s.quote
  else if c = '[' then .group (s.groups + 1) (s.optional || isAllBlank s.current)
  else if c = ']' then .group (s.groups - 1) s.optional
  else if c = '(' then .keep (s.nest + 1) s.inDefault s.quote
  else if c = ')' then .keep (s.nest - 1) s.inDefault s.quote
  else if c = ',' ∧ s.nest = 0 then .cut
  else .keep s.nest s.inDefault s.quote

def apply (s : Cut) (c : Char) : Effect → Cut
  | .keep nest inDefault quote =>
      { s with current := c :: s.current, nest := nest, inDefault := inDefault, quote := quote }
  | .group groups optional => { s with groups := groups, optional := optional }
  | .cut =>
      { s with pieces := s.close, current := [], inDefault := false, optional := 0 < s.groups }

/-- A step is its effect, and the effect does not depend on what was finished before. -/
theorem step_eq_apply (s : Cut) (c : Char) : s.step c = s.apply c (s.effect c) := by
  rw [effect]
  simp only [apply_ite (s.apply c)]
  rfl

/-- The open quote is the same as in the search for the closing parenthesis. -/
@[simp] theorem quote_step (s : Cut) (c : Char) : (s.step c).quote = quoteAfter s.quote c := by
  by_cases hquote : (s.quote.isSome || isQuote c) = true
  · rw [step, if_pos hquote]
  · obtain ⟨hs, hc⟩ : s.quote = none ∧ isQuote c = false := by simpa using hquote
    rw [step, if_neg hquote, hs, quoteAfter_of_not_isQuote hc]
    simp only [apply_ite Cut.quote, keep, hs, ite_self]

/-- The pieces that come out when the rest of a list is read from some state. -/
def finish (s : Cut) (cs : List Char) : List Piece := (cs.foldl step s).close.reverse

@[simp] theorem finish_cons (s : Cut) (c : Char) (cs : List Char) :
    s.finish (c :: cs) = (s.step c).finish cs := rfl

@[simp] theorem finish_append (s : Cut) (a b : List Char) :
    s.finish (a ++ b) = (a.foldl step s).finish b := by
  rw [finish, List.foldl_append, finish]

/-- The same state with further pieces finished before. -/
def withDone (s : Cut) (done : List Piece) : Cut := { s with pieces := s.pieces ++ done }

@[simp] theorem close_withDone (s : Cut) (done : List Piece) :
    (s.withDone done).close = s.close ++ done := by
  unfold close withDone
  dsimp only
  split_ifs <;> rfl

@[simp] theorem step_withDone (s : Cut) (done : List Piece) (c : Char) :
    (s.withDone done).step c = (s.step c).withDone done := by
  rw [step_eq_apply, step_eq_apply, show (s.withDone done).effect c = s.effect c from rfl]
  cases s.effect c with
  | keep nest inDefault quote => rfl
  | group groups optional => rfl
  | cut =>
      simp only [apply]
      rw [close_withDone]
      rfl

/-- Finished pieces stay in front of what is read later and do not change it. -/
@[simp] theorem finish_withDone (s : Cut) (done : List Piece) (cs : List Char) :
    (s.withDone done).finish cs = done.reverse ++ s.finish cs := by
  induction cs generalizing s with
  | nil => simp [finish]
  | cons c cs ih => simp [ih]

/-- The state after a text that is kept as it is. -/
def keepAll (s : Cut) (cs : List Char) : Cut := { s with current := cs.reverse ++ s.current }

@[simp] theorem keepAll_keep (s : Cut) (c : Char) (cs : List Char) :
    (s.keep c).keepAll cs = s.keepAll (c :: cs) := by
  simp [keep, keepAll]

@[simp] theorem keepAll_keepAll (s : Cut) (a b : List Char) :
    (s.keepAll a).keepAll b = s.keepAll (a ++ b) := by
  simp [keepAll]

theorem step_of_not_mem_marks {s : Cut} (hs : s.quote = none) {c : Char} (hc : c ∉ marks) :
    s.step c = s.keep c := by
  simp only [marks, List.mem_cons, List.not_mem_nil, or_false, not_or] at hc
  simp [step, isQuote, hs, hc]

theorem foldl_step_of_not_mem_marks {s : Cut} (hs : s.quote = none) {cs : List Char}
    (h : ∀ c ∈ cs, c ∉ marks) : cs.foldl step s = s.keepAll cs := by
  induction cs generalizing s with
  | nil => rfl
  | cons c cs ih =>
      rw [List.forall_mem_cons] at h
      simp [step_of_not_mem_marks hs h.1, ih (s := s.keep c) hs h.2]

theorem foldl_step_inside {s : Cut} {q : Char} (hs : s.quote = some q) {text : List Char}
    (h : q ∉ text) : text.foldl step s = s.keepAll text := by
  induction text generalizing s with
  | nil => rfl
  | cons c text ih =>
      rw [List.mem_cons, not_or] at h
      have hstep : s.step c = s.keep c := by simp [step, hs, quoteAfter, Ne.symm h.1, keep]
      simp [hstep, ih (s := s.keep c) hs h.2]

theorem foldl_step_string {s : Cut} (hs : s.quote = none) {q : Char} (hq : isQuote q = true)
    {text : List Char} (h : q ∉ text) :
    (q :: (text ++ [q])).foldl step s = s.keepAll (q :: (text ++ [q])) := by
  have hopen : s.step q = { s.keep q with quote := some q } := by simp [step, hs, hq, quoteAfter]
  rw [List.foldl_cons, hopen, List.foldl_append, foldl_step_inside rfl h]
  simp [step, quoteAfter, keep, keepAll, hs]

/-- Between two marks: some text of a piece was read, and nothing is open but optional groups. -/
def reading (text : List Char) (groups : ℕ) (optional inDefault : Bool) : Cut :=
  { current := text.reverse, groups := groups, optional := optional, inDefault := inDefault }

theorem keepAll_reading (text cs : List Char) (groups : ℕ) (optional inDefault : Bool) :
    (reading text groups optional inDefault).keepAll cs =
      reading (text ++ cs) groups optional inDefault := by
  simp [reading, keepAll]

/-- The piece with some text, if it is not blank. -/
def pieceOf (text : List Char) (optional : Bool) : List Piece :=
  if (trim text).isEmpty then [] else [⟨trim text, optional⟩]

@[simp] theorem reverse_pieceOf (text : List Char) (optional : Bool) :
    (pieceOf text optional).reverse = pieceOf text optional := by
  rw [pieceOf]
  split_ifs <;> rfl

theorem pieceOf_pad {before after text : List Char} (hbefore : ∀ c ∈ before, isBlank c = true)
    (hafter : ∀ c ∈ after, isBlank c = true) (hne : text ≠ []) (htrim : trim text = text)
    (optional : Bool) : pieceOf (before ++ (text ++ after)) optional = [⟨text, optional⟩] := by
  rw [pieceOf, trim_pad hbefore hafter, htrim]
  simp [hne]

@[simp] theorem close_reading (text : List Char) (groups : ℕ) (optional inDefault : Bool) :
    (reading text groups optional inDefault).close = pieceOf text optional := by
  simp [close, reading, pieceOf]

@[simp] theorem finish_nil (text : List Char) (groups : ℕ) (optional inDefault : Bool) :
    (reading text groups optional inDefault).finish [] = pieceOf text optional := by
  simp [finish]

/-- A comma ends the piece. The next one is optional if a group is open. -/
theorem finish_comma (text : List Char) (groups : ℕ) (optional inDefault : Bool)
    (rest : List Char) : (reading text groups optional inDefault).finish (',' :: rest) =
      pieceOf text optional ++ (reading [] groups (0 < groups) false).finish rest := by
  have hcomma : (reading text groups optional inDefault).step ',' =
      withDone (reading [] groups (0 < groups) false) (pieceOf text optional) := by
    rw [step_eq_apply, show (reading text groups optional inDefault).effect ',' = .cut from rfl,
      apply, close_reading]
    rfl
  simp [hcomma]

theorem step_group_open (text : List Char) (groups : ℕ) (optional : Bool) :
    (reading text groups optional false).step '[' =
      reading text (groups + 1) (optional || isAllBlank text) false := by
  simp [step, isQuote, reading, isAllBlank]

@[simp] theorem step_group_close (text : List Char) (groups : ℕ) (optional inDefault : Bool) :
    (reading text groups optional inDefault).step ']' =
      reading text (groups - 1) optional inDefault := rfl

end Cut

theorem pieces_eq_finish (params : List Char) :
    pieces params = (Cut.reading [] 0 false false).finish params := rfl

end Signature
end CompletionDb
