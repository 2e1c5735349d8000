import CompletionDb.Proofs.SignatureScan

/-!
# Signature lines that are written out

A signature with required and optional parameters is written as

    name(r1, r2[, o1[, o2]]) -> type

where a parameter may have stars, a type and a default value. A default value is made of quoted
strings, of groups in matching brackets and of other characters, with commas only inside a group.
Such a line is read back as it was meant, with one exception: brackets after an equals sign belong
to the default value. So where an optional group follows a default value, the text of the group is
read as the end of that value, and the parameters in it are not read. This text is a value again,
which is how the exception is reduced to the rule: the line can be written in another way, with the
longer value and without the group.
-/
namespace CompletionDb.Signature
open Text

/-! ## Types -/

/-- A type as it is written: qualified by its module, or by its name alone. -/
inductive TypeText
  | qualified (module : List Char) (ne_nil : module ≠ [])
      (dotted : ∀ c ∈ module, isDottedWord c = true) (name : Identifier)
  | bare (name : Identifier) (ne_none : name.chars ≠ ['N', 'o', 'n', 'e'])

namespace TypeText

def chars : TypeText → List Char
  | .qualified module _ _ name => module ++ '.' :: name.chars
  | .bare name _ => name.chars

/-- The type that is meant. A name alone stands for a type of the builtin module. -/
def meaning (builtin : String) : TypeText → TypeName
  | .qualified module _ _ name => ⟨String.ofList module, String.ofList name.chars⟩
  | .bare name _ => ⟨builtin, String.ofList name.chars⟩

theorem chars_ne_nil (t : TypeText) : t.chars ≠ [] := by
  cases t with
  | qualified module ne_nil dotted name => simp [chars]
  | bare name ne_none => exact name.ne_nil

theorem isDottedWord (t : TypeText) : ∀ c ∈ t.chars, Text.isDottedWord c = true := by
  intro c hc
  cases t with
  | qualified module ne_nil dotted name =>
      simp only [chars, List.mem_append, List.mem_cons] at hc
      rcases hc with hc | rfl | hc
      · exact dotted c hc
      · rfl
      · exact name.isDottedWord c hc
  | bare name ne_none => exact name.isDottedWord c hc

end TypeText

theorem Identifier.ne_dot (x : Identifier) : ∀ c ∈ x.chars, (c != '.') = true := by
  intro c hc
  rw [bne_iff_ne]
  exact ne_of_class (x.isWord c hc) rfl

@[simp] theorem splitLastDot_qualified (module : List Char) (x : Identifier) :
    splitLastDot (module ++ '.' :: x.chars) = some (module, x.chars) := by
  have hrun : ∀ c ∈ x.chars.reverse, (c != '.') = true := by simpa using x.ne_dot
  have hstop : Stops (· != '.') ('.' :: module.reverse) := stops_cons rfl _
  simp [splitLastDot, takeWhile_run hrun hstop, dropWhile_run hrun hstop]

@[simp] theorem splitLastDot_identifier (x : Identifier) : splitLastDot x.chars = none := by
  have hnone : x.chars.reverse.dropWhile (· != '.') = [] :=
    List.dropWhile_eq_nil_iff.mpr (by simpa using x.ne_dot)
  rw [splitLastDot, hnone]

theorem resolveChars_chars (builtin : String) (t : TypeText) :
    resolveChars builtin t.chars = t.meaning builtin := by
  rw [resolveChars, trim_of_isDottedWord t.isDottedWord]
  cases t with
  | qualified module ne_nil dotted name =>
      have hnone : module ++ '.' :: name.chars ≠ ['N', 'o', 'n', 'e'] := by
        intro h
        have hdot : '.' ∈ module ++ '.' :: name.chars := by simp
        rw [h] at hdot
        revert hdot
        decide
      simp [TypeText.chars, TypeText.meaning, hnone, ne_nil, name.ne_nil]
  | bare name ne_none =>
      simp [TypeText.chars, TypeText.meaning, ne_none]

/-! ## Default values -/

/-- Brackets that belong together. -/
inductive Brackets : Char → Char → Prop
  | round : Brackets '(' ')'
  | square : Brackets '[' ']'
  | curly : Brackets '\x7b' '\x7d'

/-- Text of a value. The flag tells whether it stands inside a group, where it may have commas. -/
inductive ValueText : Bool → List Char → Prop
  | nil {nested : Bool} : ValueText nested []
  | char {nested : Bool} {c : Char} {cs : List Char}
      (hc : c ∉ marks ∨ c = '=' ∨ (c = ',' ∧ nested = true)) (hcs : ValueText nested cs) :
      ValueText nested (c :: cs)
  | string {nested : Bool} {q : Char} {text cs : List Char} (hq : isQuote q = true)
      (htext : q ∉ text) (hcs : ValueText nested cs) :
      ValueText nested (q :: (text ++ [q]) ++ cs)
  | group {nested : Bool} {open_ close : Char} {inside cs : List Char} (hb : Brackets open_ close)
      (hinside : ValueText true inside) (hcs : ValueText nested cs) :
      ValueText nested (open_ :: (inside ++ [close]) ++ cs)

theorem valueText_of_not_mem_marks {nested : Bool} {cs : List Char} (h : ∀ c ∈ cs, c ∉ marks) :
    ValueText nested cs := by
  induction cs with
  | nil => exact .nil
  | cons c cs ih =>
      rw [List.forall_mem_cons] at h
      exact .char (.inl h.1) (ih h.2)

theorem ValueText.append {nested : Bool} {a b : List Char} (ha : ValueText nested a)
    (hb : ValueText nested b) : ValueText nested (a ++ b) := by
  induction ha with
  | nil => exact hb
  | char hc _ ih => exact .char hc (ih hb)
  | string hq htext _ ih =>
      rw [List.append_assoc]
      exact .string hq htext (ih hb)
  | group hbrackets hinside _ _ ih =>
      rw [List.append_assoc]
      exact .group hbrackets hinside (ih hb)

theorem ValueText.nested {nested : Bool} {cs : List Char} (h : ValueText nested cs) :
    ValueText true cs := by
  induction h with
  | nil => exact .nil
  | char hc _ ih => exact .char (hc.imp id (Or.imp id fun h => ⟨h.1, rfl⟩)) ih
  | string hq htext _ ih => exact .string hq htext ih
  | group hbrackets hinside _ _ ih => exact .group hbrackets hinside ih

theorem ValueText.closed {nested : Bool} {cs : List Char} (h : ValueText nested cs) :
    Closed cs := by
  induction h with
  | nil => exact closed_nil
  | @char nested c cs hc _ ih =>
      refine Closed.append (a := [c]) ?_ ih
      rcases hc with hc | rfl | ⟨rfl, _⟩
      · exact closed_of_not_mem_marks (by simpa using hc)
      · exact closed_singleton rfl (by decide) (by decide)
      · exact closed_singleton rfl (by decide) (by decide)
  | string hq htext _ ih => exact (closed_string hq htext).append ih
  | group hbrackets _ _ ihinside ih =>
      refine Closed.append ?_ ih
      -- only round brackets count in the search for the closing parenthesis
      cases hbrackets with
      | round => exact ihinside.parenthesised
      | square =>
          exact Closed.cons rfl (by decide) (by decide)
            (ihinside.append (closed_singleton rfl (by decide) (by decide)))
      | curly =>
          exact Closed.cons rfl (by decide) (by decide)
            (ihinside.append (closed_singleton rfl (by decide) (by decide)))

namespace Cut

theorem step_open {s : Cut} (hs : s.quote = none) (hdefault : s.inDefault = true)
    {open_ close : Char} (h : Brackets open_ close) :
    s.step open_ = { s with current := open_ :: s.current, nest := s.nest + 1 } := by
  cases h <;> simp [step, isQuote, keep, hs, hdefault]

theorem step_close {s : Cut} (hs : s.quote = none) (hnest : 0 < s.nest) {open_ close : Char}
    (h : Brackets open_ close) :
    s.step close = { s with current := close :: s.current, nest := s.nest - 1 } := by
  cases h <;> simp [step, isQuote, keep, hs, hnest]

/-- A group is kept if what stands between its brackets is kept one level deeper. -/
theorem foldl_step_group {s : Cut} (hs : s.quote = none) (hdefault : s.inDefault = true)
    {open_ close : Char} (h : Brackets open_ close) {inside : List Char}
    (hinside : ∀ t : Cut, t.quote = none → t.inDefault = true → 0 < t.nest →
      inside.foldl step t = t.keepAll inside) :
    (open_ :: (inside ++ [close])).foldl step s = s.keepAll (open_ :: (inside ++ [close])) := by
  have hread := hinside { s with current := open_ :: s.current, nest := s.nest + 1 } hs hdefault
    (Nat.succ_pos s.nest)
  rw [List.foldl_cons, step_open hs hdefault h, List.foldl_append, hread, List.foldl_cons,
    List.foldl_nil]
  refine (step_close ?_ ?_ h).trans ?_
  · exact hs
  · exact Nat.succ_pos s.nest
  · simp [keepAll]

/-- Inside a default value a value is kept as it is. -/
theorem foldl_step_value {nested : Bool} {cs : List Char} (h : ValueText nested cs) {s : Cut}
    (hs : s.quote = none) (hdefault : s.inDefault = true) (hnest : nested = true → 0 < s.nest) :
    cs.foldl step s = s.keepAll cs := by
  induction h generalizing s with
  | nil => rfl
  | @char nested c cs hc _ ih =>
      have hstep : s.step c = s.keep c := by
        rcases hc with hc | rfl | ⟨rfl, hnested⟩
        · exact step_of_not_mem_marks hs hc
        · -- another equals sign: the value goes on
          by_cases hzero : s.nest = 0 <;> simp [step, isQuote, keep, hs, hdefault, hzero]
        · have hpos := hnest hnested
          simp [step, isQuote, hs, Nat.pos_iff_ne_zero.mp hpos]
      rw [List.foldl_cons, hstep, ih (s := s.keep c) hs hdefault hnest, keepAll_keep]
  | @string nested q text cs hq htext _ ih =>
      rw [List.foldl_append, foldl_step_string hs hq htext, ih (s := s.keepAll _) hs hdefault hnest,
        keepAll_keepAll]
  | @group nested open_ close inside cs hbrackets _ _ ihinside ih =>
      have hgroup := foldl_step_group hs hdefault hbrackets fun t ht hd hpos =>
        ihinside ht hd fun _ => hpos
      rw [List.foldl_append, hgroup, ih (s := s.keepAll _) hs hdefault hnest, keepAll_keepAll]

end Cut

/-- A default value: text of a value without blanks at its ends. -/
structure Value where
  chars : List Char
  trimmed : trim chars = chars
  text : ValueText false chars

@[simp] theorem Value.skipGap_chars (v : Value) : skipGap v.chars = v.chars := by
  refine dropWhile_run (List.forall_mem_nil _) fun c hc => ?_
  exact not_isGap_of_not_isBlank ((trim_eq_self_iff.mp v.trimmed).1 c hc)

/-! ## Parameters -/

/-- A parameter as it is written. -/
structure ParamText where
  variadic : Option Variadic := none
  name : Identifier
  type : Option TypeText := none
  default : Option Value := none

def starChars : Option Variadic → List Char
  | none => []
  | some .positional => ['*']
  | some .keyword => ['*', '*']

def typeChars : Option TypeText → List Char
  | none => []
  | some t => ':' :: ' ' :: t.chars

def defaultChars : Option Value → List Char
  | none => []
  | some v => '=' :: v.chars

namespace ParamText

/-- The text of a parameter up to its default value. -/
def front (p : ParamText) : List Char :=
  starChars p.variadic ++ (p.name.chars ++ typeChars p.type)

def chars (p : ParamText) : List Char := p.front ++ defaultChars p.default

/-- The parameter that is meant. In an optional group a plain parameter without a default value has
the value `None`. -/
def meaning (builtin : String) (optional : Bool) (p : ParamText) : Parameter where
  name := String.ofList p.name.chars
  type := p.type.map (TypeText.meaning builtin)
  default :=
    match p.default with
    | some v => some (String.ofList v.chars)
    | none => if optional && p.variadic.isNone then some "None" else none
  variadic := p.variadic

theorem front_ne_nil (p : ParamText) : p.front ≠ [] := by
  simp [front, p.name.ne_nil]

theorem chars_ne_nil (p : ParamText) : p.chars ≠ [] := by
  simp [chars, p.front_ne_nil]

theorem front_not_mem_marks (p : ParamText) : ∀ c ∈ p.front, c ∉ marks := by
  intro c hc
  simp only [front, List.mem_append] at hc
  rcases hc with hc | hc | hc
  · cases hv : p.variadic with
    | none => simp [starChars, hv] at hc
    | some v =>
        obtain rfl : c = '*' := by cases v <;> simpa [starChars, hv] using hc
        decide
  · exact not_mem_marks_of_isDottedWord (p.name.isDottedWord c hc)
  · cases ht : p.type with
    | none => simp [typeChars, ht] at hc
    | some t =>
        simp only [typeChars, ht, List.mem_cons] at hc
        rcases hc with rfl | rfl | hc
        · decide
        · decide
        · exact not_mem_marks_of_isDottedWord (t.isDottedWord c hc)

theorem trim_front (p : ParamText) : trim p.front = p.front := by
  have hstars : trim (starChars p.variadic) = starChars p.variadic := by
    cases p.variadic with
    | none => rfl
    | some v => cases v <;> rfl
  have htype : trim (typeChars p.type) = typeChars p.type := by
    cases p.type with
    | none => rfl
    | some t =>
        rw [trim_eq_self_iff]
        refine ⟨by simp [typeChars, isBlank], fun c hc => ?_⟩
        rw [typeChars, List.getLast?_cons_cons, List.getLast?_cons_of_ne_nil t.chars_ne_nil] at hc
        exact not_isBlank_of_isDottedWord (t.isDottedWord c (List.mem_of_mem_getLast? hc))
  exact trim_append_self hstars (trim_append_self (trim_of_isDottedWord p.name.isDottedWord) htype)

@[simp] theorem trim_chars (p : ParamText) : trim p.chars = p.chars := by
  refine trim_append_self p.trim_front ?_
  cases p.default with
  | none => rfl
  | some v => exact trim_append_self (a := ['=']) rfl v.trimmed

/-- The text of a parameter is a value as well, so it may stand inside the brackets of one. -/
theorem valueText_chars (p : ParamText) : ValueText false p.chars := by
  refine (valueText_of_not_mem_marks p.front_not_mem_marks).append ?_
  cases p.default with
  | none => exact .nil
  | some v => exact .char (.inr (.inl rfl)) v.text

/-! ### Reading one parameter -/

theorem readStars_starChars (v : Option Variadic) {rest : List Char}
    (h : Stops (· == '*') rest) : readStars (starChars v ++ rest) = (v, rest) := by
  cases rest with
  | nil =>
      cases v with
      | none => rfl
      | some v => cases v <;> rfl
  | cons c rest =>
      have hc : c ≠ '*' := by simpa [Stops] using h
      cases v with
      | none => simp [readStars, starChars, hc]
      | some v => cases v <;> simp [readStars, starChars, hc]

theorem dropDollar_of_stops {cs : List Char} (h : Stops (· == '$') cs) : dropDollar cs = cs := by
  cases cs with
  | nil => rfl
  | cons c cs =>
      have hc : c ≠ '$' := by simpa [Stops] using h
      simp [dropDollar, hc]

theorem afterMark_self {mark : Char} (h : isGap mark = false) (rest : List Char) :
    afterMark mark (mark :: rest) = some (skipGap rest) := by
  simp [afterMark, skipGap, h]

theorem afterMark_of_ne {mark c : Char} (hgap : isGap c = false) (hne : c ≠ mark)
    (rest : List Char) : afterMark mark (c :: rest) = none := by
  simp [afterMark, skipGap, hgap, hne]

theorem readDefault_defaultChars (d : Option Value) :
    readDefault (defaultChars d) = (d.map Value.chars, []) := by
  cases d with
  | none => rfl
  | some v =>
      have hmark : afterMark '=' ('=' :: v.chars) = some v.chars := by
        rw [afterMark_self rfl, v.skipGap_chars]
      rw [readDefault, defaultChars, hmark]
      rfl

theorem stops_defaultChars {p : Char → Bool} (hp : p '=' = false) (d : Option Value) :
    Stops p (defaultChars d) := by
  cases d with
  | none => exact stops_nil p
  | some v => exact stops_cons hp _

theorem readAnnotation_typeChars (t : Option TypeText) (d : Option Value) :
    readAnnotation (typeChars t ++ defaultChars d) = (t.map TypeText.chars, defaultChars d) := by
  cases t with
  | none =>
      cases d with
      | none => rfl
      | some v =>
          have hmark : afterMark ':' ('=' :: v.chars) = none := afterMark_of_ne rfl (by decide) _
          unfold readAnnotation
          rw [typeChars, List.nil_append, defaultChars, hmark]
          rfl
  | some t =>
      have hstop := stops_defaultChars (p := Text.isDottedWord) rfl d
      have hstart : Stops isGap (t.chars ++ defaultChars d) := by
        intro c hc
        rw [List.head?_append_of_ne_nil _ t.chars_ne_nil] at hc
        have hblank := not_isBlank_of_isDottedWord (t.isDottedWord c (List.mem_of_mem_head? hc))
        exact not_isGap_of_not_isBlank hblank
      have hgap : skipGap (' ' :: (t.chars ++ defaultChars d)) = t.chars ++ defaultChars d :=
        dropWhile_run (List.all_eq_true.mp rfl : ∀ c ∈ [' '], isGap c = true) hstart
      have hmark : afterMark ':' (':' :: ' ' :: (t.chars ++ defaultChars d)) =
          some (t.chars ++ defaultChars d) := by
        rw [afterMark_self rfl, hgap]
      obtain ⟨c, cs, hchars⟩ := List.exists_cons_of_ne_nil t.chars_ne_nil
      unfold readAnnotation
      rw [typeChars, List.cons_append, List.cons_append, hmark]
      dsimp only
      rw [takeWhile_run t.isDottedWord hstop, dropWhile_run t.isDottedWord hstop, hchars]
      simp [hchars]

/-- A piece with the text of a parameter spells that parameter. -/
theorem parameter?_chars (builtin : String) (optional : Bool) (p : ParamText) :
    Piece.parameter? builtin ⟨p.chars, optional⟩ = some (p.meaning builtin optional) := by
  have hword : Stops Text.isWord (typeChars p.type ++ defaultChars p.default) := by
    cases p.type with
    | none => exact stops_defaultChars rfl _
    | some t => exact stops_cons rfl _
  have hfirst : ∀ {q : Char → Bool}, (∀ c, Text.isWord c = true → q c = false) →
      Stops q (p.name.chars ++ (typeChars p.type ++ defaultChars p.default)) := by
    intro q hq c hc
    rw [List.head?_append_of_ne_nil _ p.name.ne_nil] at hc
    exact hq c (p.name.isWord c (List.mem_of_mem_head? hc))
  have hstars := readStars_starChars p.variadic (hfirst (q := (· == '*')) fun c hc =>
    beq_false_of_ne (ne_of_class hc rfl))
  have hdollar := dropDollar_of_stops (hfirst (q := (· == '$')) fun c hc =>
    beq_false_of_ne (ne_of_class hc rfl))
  have htype : p.type.map (resolveChars builtin ∘ TypeText.chars) =
      p.type.map (TypeText.meaning builtin) :=
    Option.map_congr fun t _ => resolveChars_chars builtin t
  rw [Piece.parameter?]
  simp only [chars, front, List.append_assoc, hstars, hdollar, takeWhile_run p.name.isWord hword,
    dropWhile_run p.name.isWord hword, readAnnotation_typeChars, readDefault_defaultChars]
  simp only [isAllBlank, List.all_nil, Bool.not_true, Bool.or_false, List.isEmpty_iff,
    p.name.ne_nil, if_false, meaning, Option.map_map, htype]
  cases hd : p.default with
  | none => rfl
  | some v => simp [v.trimmed]

end ParamText

/-! ## Parameter lists -/

/-- Optional parameters, each in a group with all that follow. The flag tells whether the first is
set off by a comma. -/
def groupChars : Bool → List ParamText → List Char
  | _, [] => []
  | comma, p :: ps =>
      '[' :: ((if comma then [',', ' '] else []) ++ (p.chars ++ groupChars true ps) ++ [']'])

def listChars (required optional : List ParamText) : List Char :=
  [',', ' '].intercalate (required.map ParamText.chars) ++ groupChars (!required.isEmpty) optional

/-- The text of the optional parameters may be counted to the last required one. -/
theorem listChars_concat (required : List ParamText) (p : ParamText) (optional : List ParamText) :
    listChars (required ++ [p]) optional = [',', ' '].intercalate
      (required.map ParamText.chars ++ [p.chars ++ groupChars true optional]) := by
  rw [listChars, show (required ++ [p]).isEmpty = false by simp, List.map_append]
  generalize required.map ParamText.chars = texts
  induction texts with
  | nil => simp
  | cons text texts ih =>
      cases texts with
      | nil => simp [List.intercalate_cons_cons]
      | cons next texts =>
          simp only [List.cons_append, List.intercalate_cons_cons, List.append_assoc] at ih ⊢
          rw [ih]

theorem valueText_groupChars {nested : Bool} (comma : Bool) (ps : List ParamText) :
    ValueText nested (groupChars comma ps) := by
  induction ps generalizing nested comma with
  | nil => exact .nil
  | cons p ps ih =>
      have hcomma : ValueText true (if comma then [',', ' '] else []) := by
        cases comma with
        | false => exact .nil
        | true => exact .char (.inr (.inr ⟨rfl, rfl⟩)) (.char (.inl (by decide)) .nil)
      rw [groupChars, ← List.append_nil (_ :: _)]
      exact .group .square (hcomma.append (p.valueText_chars.nested.append (ih true))) .nil

theorem valueText_listChars (required optional : List ParamText) :
    ValueText true (listChars required optional) := by
  refine ValueText.append ?_ (valueText_groupChars _ optional)
  induction required with
  | nil => exact .nil
  | cons p ps ih =>
      cases ps with
      | nil => simpa using p.valueText_chars.nested
      | cons q qs =>
          rw [List.map_cons, List.map_cons, List.intercalate_cons_cons, ← List.map_cons,
            List.append_assoc]
          have hspace : ' ' ∉ marks := by decide
          exact p.valueText_chars.nested.append
            (.char (.inr (.inr ⟨rfl, rfl⟩)) (.char (.inl hspace) ih))

namespace Cut

theorem foldl_step_param (p : ParamText) (gap : List Char) (groups : ℕ) (optional : Bool) :
    p.chars.foldl step (reading gap groups optional false) =
      reading (gap ++ p.chars) groups optional p.default.isSome := by
  rw [ParamText.chars, List.foldl_append, foldl_step_of_not_mem_marks rfl p.front_not_mem_marks,
    keepAll_reading]
  cases p.default with
  | none => rw [defaultChars, List.append_nil]; rfl
  | some v =>
      have hequals : (reading (gap ++ p.front) groups optional false).step '=' =
          reading (gap ++ p.front ++ ['=']) groups optional true := by
        simp [step, isQuote, keep, reading]
      have hvalue := foldl_step_value v.text (s := reading (gap ++ p.front ++ ['=']) groups optional
        true) rfl rfl fun h => by cases h
      rw [defaultChars, List.foldl_cons, hequals, hvalue, keepAll_reading]
      simp

theorem pieceOf_param (p : ParamText) {gap : List Char} (hgap : ∀ c ∈ gap, isBlank c = true)
    (optional : Bool) : pieceOf (gap ++ p.chars) optional = [⟨p.chars, optional⟩] := by
  have h := pieceOf_pad hgap (List.forall_mem_nil _) p.chars_ne_nil p.trim_chars optional
  rwa [List.append_nil] at h

/-- A comma and a space behind a parameter. -/
theorem finish_next (p : ParamText) {gap : List Char} (hgap : ∀ c ∈ gap, isBlank c = true)
    (groups : ℕ) (optional inDefault : Bool) (rest : List Char) :
    (reading (gap ++ p.chars) groups optional inDefault).finish (',' :: ' ' :: rest) =
      ⟨p.chars, optional⟩ :: (reading [' '] groups (0 < groups) false).finish rest := by
  have hspace : (reading [] groups (0 < groups) false).finish (' ' :: rest) =
      (reading [' '] groups (0 < groups) false).finish rest := rfl
  rw [finish_comma, pieceOf_param p hgap, hspace]
  rfl

/-- A group opens behind a parameter. It can do so only because no default value was read. -/
theorem finish_group (p : ParamText) {gap : List Char} (hgap : ∀ c ∈ gap, isBlank c = true)
    (groups : ℕ) (optional : Bool) (rest : List Char) :
    (reading (gap ++ p.chars) groups optional false).finish ('[' :: ',' :: ' ' :: rest) =
      ⟨p.chars, optional⟩ :: (reading [' '] (groups + 1) true false).finish rest := by
  have hblank : isAllBlank (gap ++ p.chars) = false :=
    not_isAllBlank_of_trim p.chars_ne_nil p.trim_chars gap
  rw [finish_cons, step_group_open, hblank, Bool.or_false, finish_next p hgap]
  simp

/-- Closing groups does not matter any more. -/
theorem finish_closing (text : List Char) (groups n : ℕ) (optional inDefault : Bool) :
    (reading text groups optional inDefault).finish (List.replicate n ']') =
      pieceOf text optional := by
  induction n generalizing groups with
  | zero => simp
  | succ n ih => simpa [List.replicate_succ] using ih (groups - 1)

/-- A parameter and the optional ones behind it. What stands at the end closes the groups that were
open before. -/
theorem finish_groupChars (p : ParamText) (ps : List ParamText)
    (hps : ∀ q ∈ (p :: ps).dropLast, q.default = none) {gap : List Char}
    (hgap : ∀ c ∈ gap, isBlank c = true) (groups n : ℕ) (optional : Bool) :
    (reading gap groups optional false).finish
        (p.chars ++ (groupChars true ps ++ List.replicate n ']')) =
      ⟨p.chars, optional⟩ :: ps.map fun q => ⟨q.chars, true⟩ := by
  induction ps generalizing p gap groups n optional with
  | nil =>
      rw [finish_append, foldl_step_param, groupChars, List.nil_append, finish_closing,
        pieceOf_param p hgap]
      rfl
  | cons q qs ih =>
      rw [List.dropLast_cons_cons, List.forall_mem_cons] at hps
      have htext : groupChars true (q :: qs) ++ List.replicate n ']' =
          '[' :: ',' :: ' ' :: (q.chars ++ (groupChars true qs ++ List.replicate (n + 1) ']')) := by
        simp [groupChars, List.replicate_succ]
      have hspace : ∀ c ∈ [' '], isBlank c = true := List.all_eq_true.mp rfl
      rw [finish_append, foldl_step_param, hps.1, Option.isSome_none, htext, finish_group p hgap,
        ih q hps.2 hspace, List.map_cons]

/-- Required parameters, then optional ones. -/
theorem finish_listChars (p : ParamText) (required optional : List ParamText)
    (h : ∀ q ∈ ((p :: required).getLast?.toList ++ optional).dropLast, q.default = none)
    {gap : List Char} (hgap : ∀ c ∈ gap, isBlank c = true) :
    (reading gap 0 false false).finish (listChars (p :: required) optional) =
      (p :: required).map (fun q => ⟨q.chars, false⟩) ++
        optional.map fun q => ⟨q.chars, true⟩ := by
  induction required generalizing p gap with
  | nil =>
      have hread := finish_groupChars p optional (by simpa using h) hgap 0 0 false
      rw [List.replicate_zero, List.append_nil] at hread
      simpa [listChars] using hread
  | cons q required ih =>
      have htext : listChars (p :: q :: required) optional =
          p.chars ++ ',' :: ' ' :: listChars (q :: required) optional := by
        simp [listChars, List.intercalate_cons_cons]
      have hspace : ∀ c ∈ [' '], isBlank c = true := List.all_eq_true.mp rfl
      rw [htext, finish_append, foldl_step_param, finish_next p hgap, List.map_cons,
        List.cons_append]
      exact congrArg _ (ih q (by simpa using h) hspace)

end Cut

theorem pieces_listChars (required optional : List ParamText)
    (h : ∀ q ∈ (required.getLast?.toList ++ optional).dropLast, q.default = none) :
    pieces (listChars required optional) = required.map (fun q => ⟨q.chars, false⟩) ++
      optional.map fun q => ⟨q.chars, true⟩ := by
  rw [pieces_eq_finish]
  cases required with
  | cons p required => exact Cut.finish_listChars p required optional h (List.forall_mem_nil _)
  | nil =>
      cases optional with
      | nil => rfl
      | cons o os =>
          have htext : listChars [] (o :: os) =
              '[' :: (o.chars ++ (groupChars true os ++ List.replicate 1 ']')) := by
            simp [listChars, groupChars]
          -- the first group opens before anything has been read
          rw [htext, Cut.finish_cons, Cut.step_group_open]
          exact Cut.finish_groupChars o os (by simpa using h) (List.forall_mem_nil _) 1 1 true

/-! ## Signatures -/

/-- A signature as it is written. -/
structure SignatureText where
  name : List Char
  ne_nil : name ≠ []
  dotted : ∀ c ∈ name, isDottedWord c = true
  required : List ParamText
  optional : List ParamText
  returns : Option TypeText

def returnChars : Option TypeText → List Char
  | none => []
  | some t => ' ' :: '-' :: '>' :: ' ' :: t.chars

theorem readReturn_returnChars (t : Option TypeText) :
    readReturn (returnChars t) = t.map TypeText.chars := by
  cases t with
  | none => rfl
  | some t =>
      have hstart : Stops isGap t.chars := fun c hc => not_isGap_of_not_isBlank
        (not_isBlank_of_isDottedWord (t.isDottedWord c (List.mem_of_mem_head? hc)))
      have hgap : skipGap (' ' :: t.chars) = t.chars :=
        dropWhile_run (List.all_eq_true.mp rfl : ∀ c ∈ [' '], isGap c = true) hstart
      have hword : t.chars.takeWhile isDottedWord = t.chars := by
        simpa using takeWhile_run t.isDottedWord (stops_nil _)
      have harrow : skipGap (' ' :: '-' :: '>' :: ' ' :: t.chars) = '-' :: '>' :: ' ' :: t.chars :=
        rfl
      obtain ⟨c, cs, hchars⟩ := List.exists_cons_of_ne_nil t.chars_ne_nil
      rw [readReturn, returnChars, harrow]
      simp only [hgap, hword, Option.map_some]
      rw [hchars]

namespace SignatureText

def line (sig : SignatureText) : List Char :=
  lineOf sig.name (listChars sig.required sig.optional) (returnChars sig.returns)

/-- The overload that is meant. -/
def overload (builtin : String) (placeholder : TypeName) (sig : SignatureText) : Overload where
  params := sig.required.map (ParamText.meaning builtin false) ++
    sig.optional.map (ParamText.meaning builtin true)
  returns := (sig.returns.map (TypeText.meaning builtin)).getD placeholder

/-- The parameters that an optional group follows: the last required one and the optional ones, in
each case if there is a further one. -/
def beforeGroup (sig : SignatureText) : List ParamText :=
  (sig.required.getLast?.toList ++ sig.optional).dropLast

theorem parseLine_line (builtin : String) (placeholder : TypeName) (sig : SignatureText)
    (h : ∀ p ∈ sig.beforeGroup, p.default = none) :
    parseLine builtin placeholder sig.line = some (sig.overload builtin placeholder) := by
  have hlist := balanced_of_closed (valueText_listChars sig.required sig.optional).closed
    (returnChars sig.returns)
  have hreturn : (sig.returns.map TypeText.chars).map (resolveChars builtin) =
      sig.returns.map (TypeText.meaning builtin) := by
    rw [Option.map_map]
    exact Option.map_congr fun t _ => resolveChars_chars builtin t
  have hread : ∀ (optional : Bool) (ps : List ParamText),
      (ps.map fun q => (⟨q.chars, optional⟩ : Piece)).filterMap (Piece.parameter? builtin) =
        ps.map (ParamText.meaning builtin optional) := by
    intro optional ps
    rw [List.filterMap_map, ← List.filterMap_eq_map]
    congr 1
    exact funext (ParamText.parameter?_chars builtin optional)
  rw [line, parseLine_lineOf sig.ne_nil sig.dotted hlist, overloadOf,
    pieces_listChars sig.required sig.optional h, readReturn_returnChars, hreturn,
    List.filterMap_append, hread, hread]
  rfl

end SignatureText

/-! ## Groups behind a default value -/

@[simp] theorem trim_groupChars (comma : Bool) (ps : List ParamText) :
    trim (groupChars comma ps) = groupChars comma ps := by
  cases ps with
  | nil => rfl
  | cons p ps =>
      rw [trim_eq_self_iff]
      refine ⟨by simp [groupChars, isBlank], ?_⟩
      simp [groupChars, Ends, List.getLast?_cons, isBlank]

/-- A value together with the groups that follow it. -/
def Value.withGroups (v : Value) (ps : List ParamText) : Value where
  chars := v.chars ++ groupChars true ps
  trimmed := trim_append_self v.trimmed (trim_groupChars true ps)
  text := v.text.append (valueText_groupChars true ps)

/-- A parameter whose default value takes the groups that follow. -/
def ParamText.extend (p : ParamText) (ps : List ParamText) : ParamText :=
  { p with default := p.default.map fun v => v.withGroups ps }

/-- Parameters of which each is followed by a group with the next ones, as they are read: a default
value ends the list. -/
def absorb : List ParamText → List ParamText
  | [] => []
  | p :: ps => p.extend ps :: if p.default.isSome then [] else absorb ps

@[simp] theorem Value.withGroups_nil (v : Value) : v.withGroups [] = v := by
  cases v
  simp [Value.withGroups, groupChars]

theorem ParamText.extend_of_none {p : ParamText} (h : p.default = none) (ps : List ParamText) :
    p.extend ps = p := by
  cases p
  subst h
  rfl

@[simp] theorem ParamText.extend_nil (p : ParamText) : p.extend [] = p := by
  have hvalue : (fun v : Value => v.withGroups []) = id := funext Value.withGroups_nil
  rw [ParamText.extend, hvalue, Option.map_id]
  rfl

theorem ParamText.chars_extend_of_some {p : ParamText} {v : Value} (h : p.default = some v)
    (ps : List ParamText) : (p.extend ps).chars = p.chars ++ groupChars true ps := by
  simp [ParamText.chars, ParamText.front, ParamText.extend, Value.withGroups, defaultChars, h]

/-- The text stays the same: what leaves the list joins a value. -/
theorem chars_absorb (p : ParamText) (ps : List ParamText) :
    (p.extend ps).chars ++ groupChars true (if p.default.isSome then [] else absorb ps) =
      p.chars ++ groupChars true ps := by
  induction ps generalizing p with
  | nil => cases hp : p.default <;> simp [absorb, groupChars]
  | cons q qs ih =>
      cases hp : p.default with
      | some v => simp [p.chars_extend_of_some hp, groupChars]
      | none =>
          rw [p.extend_of_none hp]
          simp [absorb, groupChars, ih q]

@[simp] theorem groupChars_absorb (comma : Bool) (ps : List ParamText) :
    groupChars comma (absorb ps) = groupChars comma ps := by
  cases ps with
  | nil => rfl
  | cons p ps => rw [absorb, groupChars, groupChars, chars_absorb]

theorem default_of_mem_absorb (ps : List ParamText) :
    ∀ p ∈ (absorb ps).dropLast, p.default = none := by
  induction ps with
  | nil => exact List.forall_mem_nil _
  | cons p ps ih =>
      cases hp : p.default with
      | some v => simp [absorb, hp]
      | none =>
          rw [absorb, p.extend_of_none hp, hp]
          cases habsorb : absorb ps with
          | nil => simp
          | cons q qs =>
              rw [habsorb] at ih
              simpa [hp] using ih

/-- Whenever a value takes a group, parameters are lost. -/
theorem default_of_length_absorb {ps : List ParamText} (h : (absorb ps).length = ps.length) :
    ∀ p ∈ ps.dropLast, p.default = none := by
  induction ps with
  | nil => exact List.forall_mem_nil _
  | cons p ps ih =>
      cases hp : p.default with
      | some v =>
          obtain rfl : ps = [] := by simpa [absorb, hp, eq_comm] using h
          exact List.forall_mem_nil _
      | none =>
          have hrest := ih (by simpa [absorb, hp] using h)
          cases ps with
          | nil => exact List.forall_mem_nil _
          | cons q qs =>
              rw [List.dropLast_cons_cons, List.forall_mem_cons]
              exact ⟨hp, hrest⟩

namespace SignatureText

/-- The signature that is read from the line of another one: default values have taken the groups
that follow them. -/
def absorbed (sig : SignatureText) : SignatureText :=
  { sig with
    required := sig.required.dropLast ++
      (sig.required.getLast?.map fun p => p.extend sig.optional).toList
    optional :=
      if sig.required.getLast?.any (·.default.isSome) then [] else absorb sig.optional }

theorem beforeGroup_absorbed (sig : SignatureText) :
    sig.absorbed.beforeGroup =
      (absorb (sig.required.getLast?.toList ++ sig.optional)).dropLast := by
  rcases List.eq_nil_or_concat sig.required with hnil | ⟨rs, r, hconcat⟩
  · simp [beforeGroup, absorbed, hnil]
  · simp [beforeGroup, absorbed, hconcat, absorb]

@[simp] theorem line_absorbed (sig : SignatureText) : sig.absorbed.line = sig.line := by
  have hlist : listChars sig.absorbed.required sig.absorbed.optional =
      listChars sig.required sig.optional := by
    rcases List.eq_nil_or_concat sig.required with hnil | ⟨rs, r, hconcat⟩
    · simp [listChars, absorbed, hnil]
    · simp [absorbed, hconcat, listChars_concat, chars_absorb]
  rw [line, hlist]
  rfl

theorem length_absorbed {builtin : String} {placeholder : TypeName} {sig : SignatureText}
    (h : sig.absorbed.overload builtin placeholder = sig.overload builtin placeholder) :
    (absorb (sig.required.getLast?.toList ++ sig.optional)).length =
      (sig.required.getLast?.toList ++ sig.optional).length := by
  have hparams := congrArg (fun o => o.params.length) h
  rcases List.eq_nil_or_concat sig.required with hnil | ⟨rs, r, hconcat⟩
  · simpa [overload, absorbed, hnil] using hparams
  · simpa [overload, absorbed, hconcat, absorb] using hparams

/-- A written signature is read as it is meant, except that a default value takes the optional
groups that follow it: the line is always read, and what is read is what is meant if and only if no
group follows a default value. -/
theorem written_signature_read (builtin : String) (placeholder : TypeName) (sig : SignatureText) :
    parseLine builtin placeholder sig.line = some (sig.absorbed.overload builtin placeholder) ∧
      (parseLine builtin placeholder sig.line = some (sig.overload builtin placeholder) ↔
        ∀ p ∈ sig.beforeGroup, p.default = none) := by
  have hread : parseLine builtin placeholder sig.line =
      some (sig.absorbed.overload builtin placeholder) := by
    rw [← sig.line_absorbed]
    apply parseLine_line
    rw [beforeGroup_absorbed]
    exact default_of_mem_absorb _
  refine ⟨hread, ?_, sig.parseLine_line builtin placeholder⟩
  intro hmeant
  rw [hread, Option.some.injEq] at hmeant
  exact default_of_length_absorb (length_absorbed hmeant)

/-- The signature `f(a=1[, b])`. -/
def groupBehindValue : SignatureText where
  name := ['f']
  ne_nil := by decide
  dotted := List.all_eq_true.mp rfl
  required := [{
    name := ⟨['a'], by decide, List.all_eq_true.mp rfl⟩
    default := some ⟨['1'], rfl, .char (.inl (by decide)) .nil⟩ }]
  optional := [{ name := ⟨['b'], by decide, List.all_eq_true.mp rfl⟩ }]
  returns := none

/-- The group behind the default value of `a` is read as a part of it. -/
theorem written_signature_misread :
    String.ofList groupBehindValue.line = "f(a=1[, b])" ∧
      groupBehindValue.overload "builtins" ⟨"builtins", "object"⟩ =
        ⟨[{ name := "a", default := some "1" }, { name := "b", default := some "None" }],
          ⟨"builtins", "object"⟩⟩ ∧
      parseLine "builtins" ⟨"builtins", "object"⟩ groupBehindValue.line =
        some ⟨[{ name := "a", default := some "1[, b]" }], ⟨"builtins", "object"⟩⟩ ∧
      parseLine "builtins" ⟨"builtins", "object"⟩ groupBehindValue.line ≠
        some (groupBehindValue.overload "builtins" ⟨"builtins", "object"⟩) := by
  decide +kernel

end SignatureText

end CompletionDb.Signature
