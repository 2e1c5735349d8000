import CompletionDb.Proofs.SignatureScan

/-!
# The parenthesis that closes a parameter list

A parameter list ends where the parentheses outside quoted strings are first paired: at the end of
the shortest initial part of the text that has as many closing as opening ones and leaves no string
open. `Outside` says which characters stand outside strings, by the form of the text alone; the
search keeps the open quote and a count instead, and the two are shown to agree.

The search can also be run in place, with a counter that starts at zero, and with byte offsets at
which the text is cut. The counter is never lowered at zero, since the first character has raised
it and the search ends when it is zero again. The cuts fall beside parentheses, which are single
bytes, so both parts are whole texts whatever characters they have.
-/
namespace CompletionDb.Signature

/-! ## Outside quotes -/

/-- A text that ends outside quotes, and its characters outside quoted strings. A string ends at the
next quote equal to the one that opened it. -/
inductive Outside : List Char → List Char → Prop
  | nil : Outside [] []
  | plain {c : Char} {cs kept : List Char} : isQuote c = false → Outside cs kept →
      Outside (c :: cs) (c :: kept)
  | string {q : Char} {body cs kept : List Char} : isQuote q = true → q ∉ body → Outside cs kept →
      Outside (q :: (body ++ q :: cs)) kept

/-- A text that ends outside quotes, with as many opening as closing parentheses outside of them. -/
def Paired (cs : List Char) : Prop := ∃ kept, Outside cs kept ∧ kept.count '(' = kept.count ')'

/-- The shortest initial part of a text that is paired, the empty one apart. -/
structure ShortestPaired (text front : List Char) : Prop where
  isPrefix : front <+: text
  ne_nil : front ≠ []
  paired : Paired front
  shortest : ∀ other, other <+: text → other ≠ [] → Paired other → front.length ≤ other.length

/-- The quote that is open after a text. -/
def quoteAt (quote : Option Char) (cs : List Char) : Option Char := cs.foldl quoteAfter quote

/-- The characters outside quotes, for a text that may begin and end inside of them. -/
def outside : Option Char → List Char → List Char
  | _, [] => []
  | quote, c :: cs =>
    if quote.isSome || isQuote c then outside (quoteAfter quote c) cs else c :: outside none cs

@[simp] theorem quoteAfter_of_isQuote {c : Char} (hc : isQuote c = true) :
    quoteAfter none c = some c := by
  simp [quoteAfter, hc]

@[simp] theorem quoteAt_nil (quote : Option Char) : quoteAt quote [] = quote := rfl

@[simp] theorem quoteAt_cons (quote : Option Char) (c : Char) (cs : List Char) :
    quoteAt quote (c :: cs) = quoteAt (quoteAfter quote c) cs := rfl

@[simp] theorem outside_nil (quote : Option Char) : outside quote [] = [] := rfl

theorem outside_quoted {quote : Option Char} {c : Char} (h : (quote.isSome || isQuote c) = true)
    (cs : List Char) : outside quote (c :: cs) = outside (quoteAfter quote c) cs := by
  rw [outside, if_pos h]

@[simp] theorem outside_plain {c : Char} (hc : isQuote c = false) (cs : List Char) :
    outside none (c :: cs) = c :: outside none cs := by
  rw [outside, if_neg (by simp [hc])]

/-- A string is passed over up to the quote that ends it. -/
theorem quoteAt_string {q : Char} {body : List Char} (h : q ∉ body) (cs : List Char) :
    quoteAt (some q) (body ++ q :: cs) = quoteAt none cs ∧
      outside (some q) (body ++ q :: cs) = outside none cs := by
  induction body with
  | nil =>
      have hclose : quoteAfter (some q) q = none := by simp [quoteAfter]
      simp [outside_quoted, hclose]
  | cons c body ih =>
      rw [List.mem_cons, not_or] at h
      have hstay : quoteAfter (some q) c = some q := by simp [quoteAfter, Ne.symm h.1]
      simpa [outside_quoted, hstay] using ih h.2

theorem Outside.quoteAt_eq {cs kept : List Char} (h : Outside cs kept) :
    quoteAt none cs = none ∧ outside none cs = kept := by
  induction h with
  | nil => exact ⟨rfl, rfl⟩
  | plain hc _ ih =>
      simpa [hc, quoteAfter_of_not_isQuote hc] using ih
  | @string q body cs kept hq hbody _ ih =>
      obtain ⟨hquote, hkept⟩ := quoteAt_string hbody cs
      simpa [outside_quoted, hq, hquote, hkept] using ih

/-- The converse, for a text that begins inside a string too: then the end of the string comes
first. -/
theorem outside_of_quoteAt {quote : Option Char} {cs : List Char} (h : quoteAt quote cs = none) :
    (quote = none → Outside cs (outside none cs)) ∧ ∀ q, quote = some q →
      ∃ body rest, q ∉ body ∧ cs = body ++ q :: rest ∧ Outside rest (outside (some q) cs) := by
  induction cs generalizing quote with
  | nil =>
      refine ⟨fun _ => .nil, ?_⟩
      rintro q rfl
      cases h
  | cons c cs ih =>
      have hrest := ih h
      constructor
      · rintro rfl
        cases hc : isQuote c with
        | false =>
            rw [outside_plain hc]
            exact .plain hc (hrest.1 (quoteAfter_of_not_isQuote hc))
        | true =>
            obtain ⟨body, rest, hbody, rfl, hout⟩ := hrest.2 c (quoteAfter_of_isQuote hc)
            rw [@outside_quoted none c hc, quoteAfter_of_isQuote hc]
            exact .string hc hbody hout
      · rintro q rfl
        rw [outside_quoted rfl]
        by_cases hc : c = q
        · subst hc
          have hclose : quoteAfter (some c) c = none := by simp [quoteAfter]
          rw [hclose]
          exact ⟨[], cs, List.not_mem_nil, rfl, hrest.1 hclose⟩
        · have hstay : quoteAfter (some q) c = some q := by simp [quoteAfter, hc]
          obtain ⟨body, rest, hbody, rfl, hout⟩ := hrest.2 q hstay
          rw [hstay]
          exact ⟨c :: body, rest, by simp [hbody, Ne.symm hc], rfl, hout⟩

theorem outside_iff {cs kept : List Char} :
    Outside cs kept ↔ quoteAt none cs = none ∧ outside none cs = kept := by
  constructor
  · exact Outside.quoteAt_eq
  · rintro ⟨hquote, rfl⟩
    exact (outside_of_quoteAt hquote).1 rfl

/-! ## The shortest paired part -/

/-- The text closes what is open when it is reached, a string and so many parentheses, and leaves
nothing open. -/
def Settles (depth : ℕ) (quote : Option Char) (cs : List Char) : Prop :=
  quoteAt quote cs = none ∧ depth + (outside quote cs).count '(' = (outside quote cs).count ')'

theorem paired_iff {cs : List Char} : Paired cs ↔ Settles 0 none cs := by
  simp only [Paired, outside_iff, Settles, Nat.zero_add]
  constructor
  · rintro ⟨kept, ⟨hquote, rfl⟩, hcount⟩
    exact ⟨hquote, hcount⟩
  · rintro ⟨hquote, hcount⟩
    exact ⟨_, ⟨hquote, rfl⟩, hcount⟩

theorem not_settles_nil (depth : ℕ) (quote : Option Char) : ¬ Settles (depth + 1) quote [] := by
  rintro ⟨-, hcount⟩
  simp at hcount

theorem settles_quoted {quote : Option Char} {c : Char} (hc : (quote.isSome || isQuote c) = true)
    (depth : ℕ) (cs : List Char) :
    Settles depth quote (c :: cs) ↔ Settles depth (quoteAfter quote c) cs := by
  rw [Settles, Settles, quoteAt_cons, outside_quoted hc]

@[simp] theorem settles_open (depth : ℕ) (cs : List Char) :
    Settles depth none ('(' :: cs) ↔ Settles (depth + 1) none cs := by
  have hopen : quoteAfter none '(' = none := rfl
  rw [Settles, Settles, quoteAt_cons, hopen, outside_plain rfl, List.count_cons_self,
    List.count_cons_of_ne (by decide)]
  exact and_congr_right fun _ => by omega

@[simp] theorem settles_close (depth : ℕ) (cs : List Char) :
    Settles (depth + 1) none (')' :: cs) ↔ Settles depth none cs := by
  have hclose : quoteAfter none ')' = none := rfl
  rw [Settles, Settles, quoteAt_cons, hclose, outside_plain rfl, List.count_cons_self,
    List.count_cons_of_ne (by decide)]
  exact and_congr_right fun _ => by omega

theorem settles_other {c : Char} (hquote : isQuote c = false) (hopen : c ≠ '(') (hclose : c ≠ ')')
    (depth : ℕ) (cs : List Char) : Settles depth none (c :: cs) ↔ Settles depth none cs := by
  rw [Settles, Settles, quoteAt_cons, quoteAfter_of_not_isQuote hquote, outside_plain hquote,
    List.count_cons_of_ne hopen, List.count_cons_of_ne hclose]

/-- A text closes what is open after a character exactly if, together with the character, it closes
what was open before. -/
theorem settles_cons {depth depth' : ℕ} {quote : Option Char} {c : Char}
    (h : Advances depth quote c depth') (cs : List Char) :
    Settles (depth + 1) quote (c :: cs) ↔ Settles (depth' + 1) (quoteAfter quote c) cs := by
  cases h with
  | quoted hquoted => exact settles_quoted hquoted (depth + 1) cs
  | opening => exact settles_open (depth + 1) cs
  | closing => exact settles_close (depth' + 1) cs
  | other hc hopen hclose =>
      rw [quoteAfter_of_not_isQuote hc]
      exact settles_other hc hopen hclose (depth + 1) cs

/-- What the search returns ends before the first place where nothing is open, and no string is open
at its end. -/
theorem settles_of_balancedFrom {depth : ℕ} {quote : Option Char} {taken cs params rest : List Char}
    (h : balancedFrom depth quote taken cs = some (params, rest)) :
    ∃ more, params = taken.reverse ++ more ∧ cs = more ++ ')' :: rest ∧
      quoteAt quote more = none ∧ Settles (depth + 1) quote (more ++ [')']) ∧
      ∀ front, front <+: more → ¬ Settles (depth + 1) quote front := by
  induction cs generalizing depth quote taken with
  | nil => cases h
  | cons c cs ih =>
      rcases balancedFrom_step depth quote c with ⟨depth', hnext, hstep⟩ | ⟨rfl, rfl, rfl, hend⟩
      · rw [hstep] at h
        obtain ⟨more, hparams, rfl, hquote, hend, hfirst⟩ := ih h
        refine ⟨c :: more, by simpa using hparams, rfl, hquote, (settles_cons hnext _).mpr hend, ?_⟩
        rintro (_ | ⟨d, front⟩) hfront
        · exact not_settles_nil depth quote
        · obtain ⟨rfl, hmore⟩ := List.cons_prefix_cons.mp hfront
          rw [settles_cons hnext]
          exact hfirst front hmore
      · rw [hend] at h
        obtain ⟨rfl, rfl⟩ : taken.reverse = params ∧ cs = rest := by simpa using h
        refine ⟨[], by simp, rfl, rfl, (settles_close 0 []).mpr ⟨rfl, rfl⟩, ?_⟩
        intro front hfront
        rw [List.prefix_nil.mp hfront]
        exact not_settles_nil 0 none

/-- The search succeeds as soon as some part of the text closes what is open. -/
theorem isSome_of_settles {depth : ℕ} {quote : Option Char} {cs front : List Char}
    (hfront : front <+: cs) (h : Settles (depth + 1) quote front) (taken : List Char) :
    (balancedFrom depth quote taken cs).isSome = true := by
  induction cs generalizing depth quote front taken with
  | nil =>
      rw [List.prefix_nil.mp hfront] at h
      exact absurd h (not_settles_nil depth quote)
  | cons c cs ih =>
      rcases balancedFrom_step depth quote c with ⟨depth', hnext, hstep⟩ | ⟨-, -, -, hend⟩
      · cases front with
        | nil => exact absurd h (not_settles_nil depth quote)
        | cons d front =>
            obtain ⟨rfl, hcs⟩ := List.cons_prefix_cons.mp hfront
            rw [hstep]
            exact ih hcs ((settles_cons hnext front).mp h) (d :: taken)
      · rw [hend]
        rfl

/-- The cutting at commas ends with the quote open that is open at the end of the text. -/
@[simp] theorem Cut.quote_foldl_step (s : Cut) (cs : List Char) :
    (cs.foldl step s).quote = quoteAt s.quote cs := by
  induction cs generalizing s with
  | nil => rfl
  | cons c cs ih => simp [ih]

/-! ## The search in place -/

/-- How a search in place ends: at the byte offset of the closing parenthesis, at the end of the
text, or with a counter that was to be lowered at zero. -/
inductive SearchEnd
  | closed (offset : ℕ)
  | unclosed
  | underflow

/-- The search in place, with the byte offset of the next character and the number of parentheses
that are open, the outer one included. -/
def search (offset depth : ℕ) (quote : Option Char) : List Char → SearchEnd
  | [] => .unclosed
  | c :: cs =>
    if quote.isSome || isQuote c then search (offset + c.utf8Size) depth (quoteAfter quote c) cs
    else if c = '(' then search (offset + c.utf8Size) (depth + 1) none cs
    else if c = ')' then
      match depth with
      | 0 => .underflow
      | depth + 1 =>
        if depth = 0 then .closed offset else search (offset + c.utf8Size) depth none cs
    else search (offset + c.utf8Size) depth none cs

/-- The UTF-8 bytes of a text. -/
def textBytes (cs : List Char) : List UInt8 := cs.flatMap String.utf8EncodeChar

/-- Take a parenthesised list off the input: the bytes between the parentheses, if the input begins
with a list, and those of the input that is left. There is no answer if the counter fails. -/
def takeList (input : List Char) : Option (Option (List UInt8) × List UInt8) :=
  if input.head? = some '(' then
    match search 0 0 none input with
    | .closed offset =>
      some (some ((textBytes input).extract 1 offset), (textBytes input).drop (offset + 1))
    | .unclosed => some (none, textBytes input)
    | .underflow => none
  else some (none, textBytes input)

theorem search_advance {depth depth' : ℕ} {quote : Option Char} {c : Char}
    (h : Advances depth quote c depth') (offset : ℕ) (cs : List Char) :
    search offset (depth + 1) quote (c :: cs) =
      search (offset + c.utf8Size) (depth' + 1) (quoteAfter quote c) cs := by
  cases h with
  | quoted hquoted => rw [search.eq_def]; exact if_pos hquoted
  | opening => rfl
  | closing => rfl
  | other hc hopen hclose => simp [search, hc, hopen, hclose, quoteAfter_of_not_isQuote hc]

@[simp] theorem textBytes_concat (cs : List Char) (c : Char) :
    (textBytes (cs ++ [c])).length = (textBytes cs).length + c.utf8Size := by
  simp [textBytes]

/-- With `taken` read behind the first parenthesis, the search in place ends where the other one
does. -/
theorem search_eq (depth : ℕ) (quote : Option Char) (taken cs : List Char) :
    search (1 + (textBytes taken.reverse).length) (depth + 1) quote cs =
      (balancedFrom depth quote taken cs).elim .unclosed
        fun cut => .closed (1 + (textBytes cut.1).length) := by
  induction cs generalizing depth quote taken with
  | nil => rfl
  | cons c cs ih =>
      rcases balancedFrom_step depth quote c with ⟨depth', hnext, hstep⟩ | ⟨rfl, rfl, rfl, hend⟩
      · rw [search_advance hnext, hstep, ← ih, List.reverse_cons, textBytes_concat, Nat.add_assoc]
      · rw [hend]
        rfl

theorem textBytes_list (params rest : List Char) :
    textBytes ('(' :: (params ++ ')' :: rest)) =
      0x28 :: (textBytes params ++ 0x29 :: textBytes rest) := by
  have hopen : String.utf8EncodeChar '(' = [0x28] := by decide
  have hclose : String.utf8EncodeChar ')' = [0x29] := by decide
  simp [textBytes, hopen, hclose]

theorem search_list (cs : List Char) : search 0 0 none ('(' :: cs) =
    (balanced ('(' :: cs)).elim .unclosed fun cut => .closed (1 + (textBytes cut.1).length) :=
  search_eq 0 none [] cs

/-- The counter of the search in place is never lowered at zero. -/
theorem search_ne_underflow {text : List Char} (h : text.head? = some '(') :
    search 0 0 none text ≠ .underflow := by
  obtain ⟨cs, rfl⟩ := List.head?_eq_some_iff.mp h
  rw [search_list]
  cases balanced ('(' :: cs) with
  | none => exact SearchEnd.noConfusion
  | some cut => exact SearchEnd.noConfusion

/-- The cuts in place are the two parts of the text, and an input without a list is left as it
was. -/
theorem takeList_eq (text : List Char) :
    takeList text = some ((balanced text).elim (none, textBytes text)
      fun cut => (some (textBytes cut.1), textBytes cut.2)) := by
  cases text with
  | nil => rfl
  | cons c cs =>
      by_cases hopen : c = '('
      · subst hopen
        have hhead : ('(' :: cs).head? = some '(' := rfl
        rw [takeList, if_pos hhead, search_list]
        cases hbalanced : balanced ('(' :: cs) with
        | none => rfl
        | some cut =>
            obtain ⟨params, rest⟩ := cut
            rw [balanced_cut hbalanced, textBytes_list]
            simp [List.extract, Nat.add_comm 1]
      · have hhead : (c :: cs).head? ≠ some '(' := by simpa using hopen
        rw [takeList, if_neg hhead, balanced, if_neg hopen]
        rfl

/-! ## What is found -/

/-- The list with its parentheses is the shortest paired part, and no string is open at its end. -/
theorem shortestPaired_of_balanced {text params rest : List Char}
    (h : balanced text = some (params, rest)) :
    ShortestPaired text ('(' :: (params ++ [')'])) ∧ quoteAt none params = none := by
  have htext := balanced_cut h
  rw [htext, balanced, if_pos rfl] at h
  obtain ⟨more, hparams, -, hquote, hend, hfirst⟩ := settles_of_balancedFrom h
  obtain rfl : params = more := hparams
  refine ⟨⟨⟨rest, by simp [htext]⟩, List.cons_ne_nil _ _, ?_, ?_⟩, hquote⟩
  · exact paired_iff.mpr ((settles_open 0 _).mpr hend)
  · intro other hother hne hpaired
    rw [htext] at hother
    cases other with
    | nil => exact absurd rfl hne
    | cons c front =>
        obtain ⟨rfl, hfront⟩ := List.cons_prefix_cons.mp hother
        have hsettles := (settles_open 0 front).mp (paired_iff.mp hpaired)
        -- A part that ends inside the list would end the search there.
        have hlong : params.length < front.length := by
          by_contra hshort
          exact hfirst front (List.prefix_of_prefix_length_le hfront
            (List.prefix_append params _) (Nat.le_of_not_lt hshort)) hsettles
        simp only [List.length_cons, List.length_append, List.length_nil]
        omega

theorem isSome_balanced_iff (text : List Char) : (balanced text).isSome = true ↔
    text.head? = some '(' ∧ ∃ front, front <+: text ∧ front ≠ [] ∧ Paired front := by
  constructor
  · intro h
    obtain ⟨⟨params, rest⟩, hcut⟩ := Option.isSome_iff_exists.mp h
    have hshortest := (shortestPaired_of_balanced hcut).1
    refine ⟨?_, _, hshortest.isPrefix, hshortest.ne_nil, hshortest.paired⟩
    rw [balanced_cut hcut]
    rfl
  · rintro ⟨hhead, front, hfront, hne, hpaired⟩
    obtain ⟨cs, rfl⟩ := List.head?_eq_some_iff.mp hhead
    cases front with
    | nil => exact absurd rfl hne
    | cons c front =>
        obtain ⟨rfl, hcs⟩ := List.cons_prefix_cons.mp hfront
        exact isSome_of_settles hcs ((settles_open 0 front).mp (paired_iff.mp hpaired)) []

/-- A parameter list is found exactly if the text begins with a parenthesis and some part of it is
paired. What is found is the shortest such part: the text between its parentheses, with all its
strings closed, so that the cutting at commas ends outside strings, and the text behind it. In
place, the counter is never lowered at zero, the cuts give the bytes of the same two texts, and the
input is left as it was when there is no list. -/
theorem balanced_exact (text : List Char) :
    ((balanced text).isSome = true ↔
      text.head? = some '(' ∧ ∃ front, front <+: text ∧ front ≠ [] ∧ Paired front) ∧
    (∀ params rest, balanced text = some (params, rest) →
      ShortestPaired text ('(' :: (params ++ [')'])) ∧ text = '(' :: (params ++ [')']) ++ rest ∧
      (∃ kept, Outside params kept) ∧ (params.foldl Cut.step {}).quote = none) ∧
    (text.head? = some '(' → search 0 0 none text ≠ .underflow) ∧
    takeList text = some ((balanced text).elim (none, textBytes text)
      fun cut => (some (textBytes cut.1), textBytes cut.2)) := by
  refine ⟨isSome_balanced_iff text, ?_, search_ne_underflow, takeList_eq text⟩
  intro params rest h
  obtain ⟨hshortest, hquote⟩ := shortestPaired_of_balanced h
  refine ⟨hshortest, ?_, ⟨_, outside_iff.mpr ⟨hquote, rfl⟩⟩, ?_⟩
  · rw [balanced_cut h]
    simp
  · rw [Cut.quote_foldl_step]
    exact hquote

/-- A list with nested parentheses, a parenthesis and a foreign quote inside strings, and characters
of several bytes. -/
def nestedList : List Char := "(é='(', f(\"it's\")) -> ü)".toList

theorem balanced_exact_nestedList :
    balanced nestedList = some ("é='(', f(\"it's\")".toList, " -> ü)".toList) ∧
      ShortestPaired nestedList "(é='(', f(\"it's\"))".toList := by
  have h : balanced nestedList = some ("é='(', f(\"it's\")".toList, " -> ü)".toList) := by
    decide +kernel
  exact ⟨h, ((balanced_exact nestedList).2.1 _ _ h).1⟩

end CompletionDb.Signature
