import CompletionDb.Proofs.SignatureScan
import Mathlib.Data.List.Forall2

/-!
# Quoted text is opaque

A parameter list is a sequence of tokens: characters outside quotes and quoted strings. Two lists
that differ only in what their strings hold are read side by side here. The search for the closing
parenthesis and the cutting at commas pass from token to token in the same states, so the pieces
correspond. A piece is then taken apart at marks that are no quotes, and a string can only be met
where the text of a default value begins. Hence the parameters agree, but for the strings in their
default values.
-/
namespace CompletionDb.Signature
open Text

/-- A character outside quotes, or a quoted string with the text it holds and another text that may
stand in its place. -/
inductive Token
  | plain (c : Char) (isQuote_eq : isQuote c = false)
  | string (q : Char) (isQuote_eq : isQuote q = true) (old new : List Char)
      (not_mem_old : q ∉ old) (not_mem_new : q ∉ new)

namespace Token

def old : Token → List Char
  | plain c _ => [c]
  | string q _ old _ _ _ => q :: (old ++ [q])

def new : Token → List Char
  | plain c _ => [c]
  | string q _ _ new _ _ => q :: (new ++ [q])

end Token

def oldText (ts : List Token) : List Char := ts.flatMap Token.old

/-- The text with all strings replaced. -/
def newText (ts : List Token) : List Char := ts.flatMap Token.new

@[simp] theorem oldText_nil : oldText [] = [] := rfl

@[simp] theorem newText_nil : newText [] = [] := rfl

@[simp] theorem oldText_cons (t : Token) (ts : List Token) :
    oldText (t :: ts) = t.old ++ oldText ts := rfl

@[simp] theorem newText_cons (t : Token) (ts : List Token) :
    newText (t :: ts) = t.new ++ newText ts := rfl

@[simp] theorem oldText_concat (ts : List Token) (t : Token) :
    oldText (ts ++ [t]) = oldText ts ++ t.old := by
  simp [oldText]

@[simp] theorem newText_concat (ts : List Token) (t : Token) :
    newText (ts ++ [t]) = newText ts ++ t.new := by
  simp [newText]

/-! ## The closing parenthesis -/

/-- Inside the list that is found the search goes on. -/
theorem exists_depth {depth : ℕ} {quote : Option Char} {taken more rest : List Char} {c : Char}
    (h : balancedFrom depth quote taken (c :: (more ++ ')' :: rest)) =
      some (taken.reverse ++ c :: more, rest)) :
    ∃ depth', (∀ taken cs, balancedFrom depth quote taken (c :: cs) =
        balancedFrom depth' (quoteAfter quote c) (c :: taken) cs) ∧
      balancedFrom depth' (quoteAfter quote c) (c :: taken) (more ++ ')' :: rest) =
        some ((c :: taken).reverse ++ more, rest) := by
  rcases balancedFrom_step depth quote c with ⟨depth', -, hstep⟩ | ⟨-, -, -, hend⟩
  · refine ⟨depth', hstep, ?_⟩
    rw [← hstep, h]
    simp
  · rw [hend] at h
    simp at h

/-- At the end of the list that is found no parenthesis and no string is open. -/
theorem balancedFrom_end {depth : ℕ} {quote : Option Char} {taken rest : List Char}
    (h : balancedFrom depth quote taken (')' :: rest) = some (taken.reverse, rest)) :
    quote = none ∧ depth = 0 := by
  rcases balancedFrom_step depth quote ')' with ⟨depth', -, hstep⟩ | ⟨hquote, hdepth, -, -⟩
  · rw [hstep] at h
    obtain ⟨more, hmore, hrest⟩ := balancedFrom_cut h
    have hlength := congrArg List.length hrest
    simp only [List.length_append, List.length_cons] at hlength
    omega
  · exact ⟨hquote, hdepth⟩

/-- What is found before the closing parenthesis is made of tokens; when a string is open, its end
comes first. -/
theorem exists_tokens {depth : ℕ} {quote : Option Char} {taken more rest : List Char}
    (h : balancedFrom depth quote taken (more ++ ')' :: rest) =
      some (taken.reverse ++ more, rest)) :
    (quote = none → ∃ ts, oldText ts = more) ∧
      ∀ q, quote = some q → ∃ text ts, q ∉ text ∧ more = text ++ q :: oldText ts := by
  induction more generalizing depth quote taken with
  | nil =>
      obtain ⟨rfl, -⟩ := balancedFrom_end (by simpa using h)
      exact ⟨fun _ => ⟨[], rfl⟩, fun q hq => by cases hq⟩
  | cons c more ih =>
      obtain ⟨depth', -, hread⟩ := exists_depth h
      have hrest := ih hread
      constructor
      · rintro rfl
        cases hc : isQuote c with
        | false =>
            obtain ⟨ts, hts⟩ := hrest.1 (by simp [quoteAfter, hc])
            exact ⟨.plain c hc :: ts, by simp [Token.old, hts]⟩
        | true =>
            obtain ⟨text, ts, htext, hmore⟩ := hrest.2 c (by simp [quoteAfter, hc])
            exact ⟨.string c hc text text htext htext :: ts,
              by simp [Token.old, hmore]⟩
      · rintro q rfl
        by_cases hc : c = q
        · subst hc
          obtain ⟨ts, hts⟩ := hrest.1 (by simp [quoteAfter])
          exact ⟨[], ts, by simp, by simp [hts]⟩
        · obtain ⟨text, ts, htext, hmore⟩ := hrest.2 q (by simp [quoteAfter, hc])
          exact ⟨c :: text, ts, by simp [htext, Ne.symm hc], by simp [hmore]⟩

/-- The parenthesis that closes the old list closes the new one. -/
theorem balancedFrom_newText {ts : List Token} {depth : ℕ} {taken rest : List Char}
    (h : balancedFrom depth none taken (oldText ts ++ ')' :: rest) =
      some (taken.reverse ++ oldText ts, rest)) (taken' : List Char) :
    balancedFrom depth none taken' (newText ts ++ ')' :: rest) =
      some (taken'.reverse ++ newText ts, rest) := by
  induction ts generalizing depth taken taken' with
  | nil =>
      obtain ⟨-, rfl⟩ := balancedFrom_end (by simpa using h)
      simp [balancedFrom, isQuote]
  | cons t ts ih =>
      rw [oldText_cons] at h
      rw [newText_cons]
      cases t with
      | plain c hc =>
          obtain ⟨depth', hstep, hread⟩ := exists_depth h
          have hafter := quoteAfter_of_not_isQuote hc
          rw [hafter] at hread
          simp only [Token.new, List.cons_append, List.nil_append, hstep, hafter]
          rw [ih hread]
          simp
      | string q hq old new hold hnew =>
          rw [Token.old, List.append_assoc, closed_string hq hold] at h
          rw [Token.new, List.append_assoc, closed_string hq hnew, ih (by rw [h]; simp)]
          simp

/-! ## Texts that differ in strings -/

/-- The old and the new text of some of the tokens. -/
def Alike (ts : List Token) (a b : List Char) : Prop :=
  ∃ us, us.Sublist ts ∧ a = oldText us ∧ b = newText us

theorem not_of_isQuote {p : Char → Bool} (hsingle : p '\x27' = false) (hdouble : p '"' = false)
    {c : Char} (hc : isQuote c = true) : p c = false := by
  rcases (by simpa [isQuote] using hc : c = '\x27' ∨ c = '"') with rfl | rfl
  · exact hsingle
  · exact hdouble

section
variable {ts : List Token} {a b : List Char}

theorem alike_nil (ts : List Token) : Alike ts [] [] := ⟨[], List.nil_sublist ts, rfl, rfl⟩

theorem Alike.mono (h : Alike ts a b) (t : Token) : Alike (ts ++ [t]) a b := by
  obtain ⟨us, hsub, ha, hb⟩ := h
  exact ⟨us, hsub.trans (List.sublist_append_left ts [t]), ha, hb⟩

theorem Alike.concat (h : Alike ts a b) (t : Token) :
    Alike (ts ++ [t]) (a ++ t.old) (b ++ t.new) := by
  obtain ⟨us, hsub, rfl, rfl⟩ := h
  exact ⟨us ++ [t], hsub.append_right [t], (oldText_concat us t).symm, (newText_concat us t).symm⟩

/-- Both texts end here, or go on with the same character, and after one that is no quote what
follows is alike again. -/
theorem Alike.cases_head (h : Alike ts a b) : (a = [] ∧ b = []) ∨
    ∃ c a' b', a = c :: a' ∧ b = c :: b' ∧ (isQuote c = false → Alike ts a' b') := by
  obtain ⟨us, hsub, rfl, rfl⟩ := h
  cases us with
  | nil => exact .inl ⟨rfl, rfl⟩
  | cons t us =>
      right
      cases t with
      | plain c hc =>
          exact ⟨c, oldText us, newText us, rfl, rfl,
            fun _ => ⟨us, (List.sublist_cons_self _ us).trans hsub, rfl, rfl⟩⟩
      | string q hq old new hold hnew =>
          refine ⟨q, _, _, rfl, rfl, fun hc => ?_⟩
          rw [hq] at hc
          cases hc

theorem Alike.isEmpty_eq (h : Alike ts a b) : a.isEmpty = b.isEmpty := by
  rcases h.cases_head with ⟨rfl, rfl⟩ | ⟨c, a', b', rfl, rfl, -⟩ <;> rfl

variable {p : Char → Bool}

/-- Runs of a class without quotes at the front are equal, and what follows them is alike. -/
theorem Alike.span (hp : ∀ {c}, isQuote c = true → p c = false) (h : Alike ts a b) :
    a.takeWhile p = b.takeWhile p ∧ Alike ts (a.dropWhile p) (b.dropWhile p) := by
  obtain ⟨us, hsub, rfl, rfl⟩ := h
  induction us with
  | nil => exact ⟨rfl, alike_nil ts⟩
  | cons t us ih =>
      -- the run passes a character of its class, and stops at any other and at a string
      have hstop : ∀ c a b, p c = false → oldText (t :: us) = c :: a → newText (t :: us) = c :: b →
          (oldText (t :: us)).takeWhile p = (newText (t :: us)).takeWhile p ∧
          Alike ts ((oldText (t :: us)).dropWhile p) ((newText (t :: us)).dropWhile p) := by
        intro c a b hc hold hnew
        have halike : Alike ts (oldText (t :: us)) (newText (t :: us)) := ⟨t :: us, hsub, rfl, rfl⟩
        rw [hold, hnew] at halike ⊢
        simpa [hc] using halike
      cases t with
      | string q hq old new hold hnew => exact hstop q _ _ (hp hq) rfl rfl
      | plain c hc =>
          cases hclass : p c with
          | false => exact hstop c _ _ hclass rfl rfl
          | true =>
              have hrest := ih ((List.sublist_cons_self _ us).trans hsub)
              simpa [Token.old, Token.new, hclass] using hrest

theorem Alike.rdropWhile (hp : ∀ {c}, isQuote c = true → p c = false) (h : Alike ts a b) :
    Alike ts (a.rdropWhile p) (b.rdropWhile p) := by
  obtain ⟨us, hsub, rfl, rfl⟩ := h
  induction us using List.reverseRecOn with
  | nil => exact alike_nil ts
  | append_singleton us t ih =>
      have halike : Alike ts (oldText (us ++ [t])) (newText (us ++ [t])) :=
        ⟨us ++ [t], hsub, rfl, rfl⟩
      rw [oldText_concat, newText_concat] at halike ⊢
      cases t with
      | plain c hc =>
          simp only [Token.old, Token.new, List.rdropWhile_concat] at halike ⊢
          split_ifs with hclass
          · exact ih ((List.sublist_append_left us _).trans hsub)
          · exact halike
      | string q hq old new hold hnew =>
          have hkeep : ∀ cs text : List Char,
              (cs ++ q :: (text ++ [q])).rdropWhile p = cs ++ q :: (text ++ [q]) := by
            intro cs text
            rw [← List.cons_append, ← List.append_assoc,
              List.rdropWhile_concat_neg p _ q (by simp [hp hq])]
          simp only [Token.old, Token.new, hkeep] at halike ⊢
          exact halike

theorem Alike.trim (h : Alike ts a b) : Alike ts (trim a) (trim b) :=
  (h.span (not_of_isQuote rfl rfl)).2.rdropWhile (not_of_isQuote rfl rfl)

theorem Alike.isAllBlank_eq (h : Alike ts a b) : isAllBlank a = isAllBlank b := by
  have hblank : ∀ cs : List Char, isAllBlank cs = (cs.dropWhile isBlank).isEmpty := by
    intro cs
    rw [Bool.eq_iff_iff, List.isEmpty_iff, List.dropWhile_eq_nil_iff, isAllBlank, List.all_eq_true]
  rw [hblank, hblank, (h.span (not_of_isQuote rfl rfl)).2.isEmpty_eq]

end

/-! ## Cutting at commas -/

structure Piece.Matches (ts : List Token) (p p' : Piece) : Prop where
  text : Alike ts p.text p'.text
  optional : p.optional = p'.optional

/-- Two cuttings that stand between the same tokens. -/
structure Cut.Matches (ts : List Token) (s s' : Cut) : Prop where
  pieces : List.Forall₂ (Piece.Matches ts) s.pieces s'.pieces
  current : Alike ts s.current.reverse s'.current.reverse
  groups : s.groups = s'.groups
  optional : s.optional = s'.optional
  nest : s.nest = s'.nest
  inDefault : s.inDefault = s'.inDefault
  quote : s.quote = none
  quote' : s'.quote = none

namespace Cut

namespace Matches
variable {ts : List Token} {s s' : Cut}

theorem mono (h : Matches ts s s') (t : Token) : Matches (ts ++ [t]) s s' :=
  { h with
    pieces := h.pieces.imp fun _ _ hp => ⟨hp.text.mono t, hp.optional⟩
    current := h.current.mono t }

theorem effect_eq (h : Matches ts s s') (c : Char) : s.effect c = s'.effect c := by
  have hblank : isAllBlank s.current = isAllBlank s'.current := by
    simpa [isAllBlank] using h.current.isAllBlank_eq
  rw [effect, effect, h.groups, h.optional, h.nest, h.inDefault, h.quote, h.quote', hblank]

theorem close (h : Matches ts s s') : List.Forall₂ (Piece.Matches ts) s.close s'.close := by
  have htrim := h.current.trim
  rw [Cut.close, Cut.close, ← htrim.isEmpty_eq]
  split_ifs
  · exact h.pieces
  · exact .cons ⟨htrim, h.optional⟩ h.pieces

theorem keepAll (h : Matches ts s s') (t : Token) :
    Matches (ts ++ [t]) (s.keepAll t.old) (s'.keepAll t.new) :=
  { h.mono t with
    current := by simpa [Cut.keepAll] using h.current.concat t }

/-- A token takes both cuttings to the same place. -/
theorem token (h : Matches ts s s') (t : Token) :
    Matches (ts ++ [t]) (t.old.foldl step s) (t.new.foldl step s') := by
  cases t with
  | string q hq old new hold hnew =>
      rw [Token.old, Token.new, foldl_step_string h.quote hq hold,
        foldl_step_string h.quote' hq hnew]
      exact h.keepAll (.string q hq old new hold hnew)
  | plain c hc =>
      have hquote : (s.step c).quote = none := by
        rw [quote_step, h.quote, quoteAfter_of_not_isQuote hc]
      have hmono := h.mono (.plain c hc)
      simp only [Token.old, Token.new, List.foldl_cons, List.foldl_nil]
      rw [step_eq_apply] at hquote
      rw [step_eq_apply, step_eq_apply, ← h.effect_eq c]
      cases heffect : s.effect c with
      | keep nest inDefault quote =>
          rw [heffect] at hquote
          exact { h.keepAll (.plain c hc) with
            nest := rfl
            inDefault := rfl
            quote := hquote
            quote' := hquote }
      | group groups optional => exact { hmono with groups := rfl, optional := rfl }
      | cut =>
          exact { hmono with
            pieces := hmono.close
            current := alike_nil _
            optional := by simp only [apply, h.groups]
            inDefault := rfl }

theorem tokens (h : Matches ts s s') (us : List Token) :
    Matches (ts ++ us) ((oldText us).foldl step s) ((newText us).foldl step s') := by
  induction us generalizing ts s s' with
  | nil => simpa using h
  | cons t us ih => simpa using ih (h.token t)

end Matches
end Cut

theorem pieces_match (ts : List Token) :
    List.Forall₂ (Piece.Matches ts) (pieces (oldText ts)) (pieces (newText ts)) := by
  have hstart : Cut.Matches [] {} {} := ⟨.nil, alike_nil [], rfl, rfl, rfl, rfl, rfl, rfl⟩
  rw [pieces, pieces, List.forall₂_reverse_iff]
  exact (hstart.tokens ts).close

/-! ## Reading a piece -/

section
variable {ts : List Token} {a b : List Char}

theorem Alike.readStars (h : Alike ts a b) :
    ∃ stars a' b', readStars a = (stars, a') ∧ readStars b = (stars, b') ∧ Alike ts a' b' := by
  rcases h.cases_head with ⟨rfl, rfl⟩ | ⟨c, a, b, rfl, rfl, htail⟩
  · exact ⟨none, [], [], rfl, rfl, h⟩
  by_cases hc : c = '*'
  · subst hc
    have hrest := htail rfl
    rcases hrest.cases_head with ⟨rfl, rfl⟩ | ⟨d, a, b, rfl, rfl, hnext⟩
    · exact ⟨some .positional, [], [], rfl, rfl, hrest⟩
    by_cases hd : d = '*'
    · subst hd
      exact ⟨some .keyword, a, b, rfl, rfl, hnext rfl⟩
    · exact ⟨some .positional, d :: a, d :: b, by simp [Signature.readStars, hd],
        by simp [Signature.readStars, hd], hrest⟩
  · exact ⟨none, c :: a, c :: b, by simp [Signature.readStars, hc],
      by simp [Signature.readStars, hc], h⟩

theorem Alike.dropDollar (h : Alike ts a b) : Alike ts (dropDollar a) (dropDollar b) := by
  rcases h.cases_head with ⟨rfl, rfl⟩ | ⟨c, a, b, rfl, rfl, htail⟩
  · exact h
  by_cases hc : c = '$'
  · subst hc
    exact htail rfl
  · simpa [Signature.dropDollar, hc] using h

theorem Alike.afterMark {c : Char} (hc : isQuote c = false) (h : Alike ts a b) :
    Option.Rel (Alike ts) (afterMark c a) (afterMark c b) := by
  have hgap : Alike ts (skipGap a) (skipGap b) := (h.span (not_of_isQuote rfl rfl)).2
  rw [Signature.afterMark, Signature.afterMark]
  rcases hgap.cases_head with ⟨ha, hb⟩ | ⟨d, a', b', ha, hb, htail⟩
  · rw [ha, hb]
    exact .none
  · rw [ha, hb]
    dsimp only
    split_ifs with hd
    · subst hd
      exact .some ((htail hc).span (not_of_isQuote rfl rfl)).2
    · exact .none

theorem Alike.annotated (h : Alike ts a b) : ∃ word a' b',
    readAnnotation a = (word, a') ∧ readAnnotation b = (word, b') ∧ Alike ts a' b' := by
  have hmark := h.afterMark (c := ':') rfl
  unfold readAnnotation
  generalize Signature.afterMark ':' a = x, Signature.afterMark ':' b = y at hmark ⊢
  cases hmark with
  | none => exact ⟨none, a, b, rfl, rfl, h⟩
  | some hrest =>
      obtain ⟨hword, hafter⟩ := hrest.span (p := isDottedWord) (not_of_isQuote rfl rfl)
      dsimp only
      rw [← hword]
      split
      · exact ⟨none, a, b, rfl, rfl, h⟩
      · exact ⟨_, _, _, rfl, rfl, hafter⟩

theorem Alike.readDefault (h : Alike ts a b) : ∃ x y a' b', readDefault a = (x, a') ∧
    readDefault b = (y, b') ∧ Option.Rel (Alike ts) x y ∧ Alike ts a' b' := by
  have hmark := h.afterMark (c := '=') rfl
  rw [Signature.readDefault, Signature.readDefault]
  generalize Signature.afterMark '=' a = x, Signature.afterMark '=' b = y at hmark ⊢
  cases hmark with
  | none => exact ⟨none, none, a, b, rfl, rfl, .none, h⟩
  | some hrest => exact ⟨_, _, [], [], rfl, rfl, .some hrest, alike_nil ts⟩

end

/-- Equal parameters, but for the strings of a default value. -/
structure SameButStrings (ts : List Token) (p p' : Parameter) : Prop where
  name : p.name = p'.name
  type : p.type = p'.type
  variadic : p.variadic = p'.variadic
  default : p.default = p'.default ∨ ∃ us, us.Sublist ts ∧
    p.default = some (String.ofList (oldText us)) ∧ p'.default = some (String.ofList (newText us))

theorem Piece.Matches.parameter? {ts : List Token} {p p' : Piece} (h : p.Matches ts p')
    (builtin : String) :
    Option.Rel (SameButStrings ts) (p.parameter? builtin) (p'.parameter? builtin) := by
  obtain ⟨stars, a, b, hstars, hstars', hafter⟩ := h.text.readStars
  obtain ⟨hname, hrest⟩ := hafter.dropDollar.span (p := isWord) (not_of_isQuote rfl rfl)
  obtain ⟨word, a', b', hword, hword', hvalue⟩ := hrest.annotated
  obtain ⟨x, y, left, left', hx, hy, hdefault, hleft⟩ := hvalue.readDefault
  simp only [Piece.parameter?, hstars, hstars', hword, hword', hx, hy, hname, hleft.isAllBlank_eq,
    h.optional]
  split
  · exact .none
  · refine .some ⟨rfl, rfl, rfl, ?_⟩
    cases hdefault with
    | none => exact .inl rfl
    | some htext =>
        obtain ⟨us, hsub, hold, hnew⟩ := htext.trim
        exact .inr ⟨us, hsub, by simp only [hold], by simp only [hnew]⟩

/-- Every accepted line has a parameter list made of characters and paired strings. With other text
in the strings it is accepted again, and means the same but for the strings in default values. -/
theorem quoted_text_opaque {builtin : String} {placeholder : TypeName} {line : List Char}
    {o : Overload} (h : parseLine builtin placeholder line = some o) :
    ∃ name params rest, line = lineOf name params rest ∧
      balanced (line.dropWhile isDottedWord) = some (params, rest) ∧
      (∃ ts, oldText ts = params) ∧
      ∀ ts, oldText ts = params →
        ∃ o', parseLine builtin placeholder (lineOf name (newText ts) rest) = some o' ∧
          List.Forall₂ (SameButStrings ts) o.params o'.params ∧ o.returns = o'.returns := by
  obtain ⟨name, params, rest, rfl, hne, hname, hlist, rfl⟩ := exists_lineOf_of_parseLine h
  have hfound : balancedFrom 0 none [] (params ++ ')' :: rest) = some (params, rest) := by
    simpa [balanced] using hlist
  refine ⟨name, params, rest, rfl, ?_, (exists_tokens hfound).1 rfl, ?_⟩
  · rw [lineOf, dropWhile_run hname (stops_cons rfl _), hlist]
  · rintro ts rfl
    have hnew : balanced ('(' :: (newText ts ++ ')' :: rest)) = some (newText ts, rest) := by
      simpa [balanced] using balancedFrom_newText hfound []
    refine ⟨_, parseLine_lineOf hne hname hnew builtin placeholder, ?_, rfl⟩
    exact List.rel_filterMap (fun _ _ hp => hp.parameter? builtin) (pieces_match ts)

/-- The list `sep='x', end: str="y"`, with marks of every kind to put into its strings. -/
def joinTokens : List Token :=
  [.plain 's' rfl, .plain 'e' rfl, .plain 'p' rfl, .plain '=' rfl,
    .string '\x27' rfl "x".toList "), b=[\x7b(".toList (by decide) (by decide),
    .plain ',' rfl, .plain ' ' rfl, .plain 'e' rfl, .plain 'n' rfl, .plain 'd' rfl, .plain ':' rfl,
    .plain ' ' rfl, .plain 's' rfl, .plain 't' rfl, .plain 'r' rfl, .plain '=' rfl,
    .string '"' rfl "y".toList "', c) -> int".toList (by decide) (by decide)]

def joinLine : List Char := "join(sep='x', end: str=\"y\") -> str".toList

def joinOverload : Overload :=
  ⟨[{ name := "sep", default := some "'x'" },
    { name := "end", type := some ⟨"builtins", "str"⟩, default := some "\"y\"" }],
    ⟨"builtins", "str"⟩⟩

theorem quoted_text_opaque_join :
    parseLine "builtins" ⟨"builtins", "object"⟩ joinLine = some joinOverload ∧
      oldText joinTokens = "sep='x', end: str=\"y\"".toList ∧
      newText joinTokens = "sep='), b=[\x7b(', end: str=\"', c) -> int\"".toList ∧
      ∃ o', parseLine "builtins" ⟨"builtins", "object"⟩
          (lineOf "join".toList (newText joinTokens) " -> str".toList) = some o' ∧
        List.Forall₂ (SameButStrings joinTokens) joinOverload.params o'.params ∧
        joinOverload.returns = o'.returns := by
  have hparse : parseLine "builtins" ⟨"builtins", "object"⟩ joinLine = some joinOverload := by
    decide +kernel
  have hlist : balanced (joinLine.dropWhile isDottedWord) =
      some (oldText joinTokens, " -> str".toList) := by decide +kernel
  refine ⟨hparse, by decide +kernel, by decide +kernel, ?_⟩
  obtain ⟨name, params, rest, hline, hfound, -, hopaque⟩ := quoted_text_opaque hparse
  obtain ⟨rfl, rfl⟩ : oldText joinTokens = params ∧ " -> str".toList = rest := by
    simpa [hlist] using hfound
  have hname : name = "join".toList := by
    have hjoin : joinLine = lineOf "join".toList (oldText joinTokens) " -> str".toList := by
      decide +kernel
    exact List.append_cancel_right (hline.symm.trans hjoin)
  rw [← hname]
  exact hopaque joinTokens rfl

end CompletionDb.Signature
