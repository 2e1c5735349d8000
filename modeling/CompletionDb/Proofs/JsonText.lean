import CompletionDb.Json.Printer
import CompletionDb.Json.Reader
import CompletionDb.Proofs.CharacterRuns
import CompletionDb.Proofs.RecordTree

/-!
# JSON texts that spell a document

`Spells` says which texts stand for a document: scalars as they are printed, and between the items
of a list or a table any number of blanks before an item, after a colon and before the closing
bracket. The reader returns the document from each of these texts, whatever follows it, as long as
what follows does not go on with a number. Both layouts of the printer are such texts, so a document
from texts, flags, naturals, lists and tables under text keys is read back from either.

What is read of a text literal is told character by character: the escaped form of a character,
read in any state, adds that character and nothing else.
-/
namespace CompletionDb.Json
open Text

/-! ## Blanks and what may follow a number -/

def Blank (cs : List Char) : Prop := ∀ c ∈ cs, isSpace c

theorem blank_nil : Blank [] := List.forall_mem_nil _

theorem blank_newline (level : ℕ) : Blank (newline level) := by
  intro c hc
  rw [newline, List.mem_cons, List.mem_replicate] at hc
  rcases hc with rfl | ⟨_, rfl⟩ <;> rfl

theorem skipSpace_append {b : List Char} (hb : Blank b) (cs : List Char) :
    skipSpace (b ++ cs) = skipSpace cs :=
  List.dropWhile_append_of_pos hb

theorem skipSpace_cons {c : Char} (hc : isSpace c = false) (cs : List Char) :
    skipSpace (c :: cs) = c :: cs :=
  List.dropWhile_cons_of_neg (by simp [hc])

theorem skipSpace_append_cons {b : List Char} (hb : Blank b) {c : Char} (hc : isSpace c = false)
    (cs : List Char) : skipSpace (b ++ c :: cs) = c :: cs := by
  rw [skipSpace_append hb, skipSpace_cons hc]

/-- A value may start after any blanks. -/
theorem readValue_append {b : List Char} (hb : Blank b) (fuel : ℕ) (cs : List Char) :
    readValue fuel (b ++ cs) = readValue fuel cs := by
  cases fuel with
  | zero => simp only [readValue]
  | succ fuel => simp only [readValue, skipSpace_append hb]

/-- A character that may go on with a number. -/
def continuesNumber (c : Char) : Bool := isDigit c || c == '.' || c == 'e' || c == 'E'

theorem not_continuesNumber_of_isSpace {c : Char} (hc : isSpace c) : continuesNumber c = false := by
  simp only [isSpace, Bool.or_eq_true, beq_iff_eq] at hc
  rcases hc with ((rfl | rfl) | rfl) | rfl <;> rfl

/-- Blanks end a number, and so does a closing bracket or brace behind them. -/
theorem stops_blank_append {b : List Char} (hb : Blank b) {cs : List Char}
    (hcs : Stops continuesNumber cs) : Stops continuesNumber (b ++ cs) :=
  (stops_of_forall fun c hc => not_continuesNumber_of_isSpace (hb c hc)).append hcs

/-! ## Text literals -/

/-- A text literal in which every surrogate has been paired. -/
def Literal.ofChars (cs : List Char) : Literal := { chars := cs }

@[simp] theorem Literal.push_ofChars (c : Char) (cs : List Char) :
    (Literal.ofChars cs).push c = Literal.ofChars (c :: cs) := rfl

@[simp] theorem Literal.finish_ofChars (cs : List Char) :
    (Literal.ofChars cs).finish = .text (String.ofList cs.reverse) := rfl

theorem readText_shortEscape {l : Literal} {e c : Char} (hu : e ≠ 'u')
    (he : shortEscape? e = some c) (cs : List Char) :
    readText l ('\\' :: e :: cs) = readText (l.push c) cs := by
  rw [readText]
  · simp only [he]
  · simp [hu]

theorem readText_plain {l : Literal} {c : Char} (hq : c ≠ '"') (hb : c ≠ '\\')
    (hc : ¬ c.toNat < 0x20) (cs : List Char) :
    readText l (c :: cs) = readText (l.push c) cs := by
  rw [readText]
  · simp [hc, hb]
  all_goals simp [hq, hb]

/-- The two digits in the escape of a control character spell it. -/
theorem unit?_control {n : ℕ} (hn : n < 0x20) :
    unit? '0' '0' (hexDigit (n / 16)) (hexDigit (n % 16)) = some n := by
  revert n
  decide

theorem pushUnit_control (l : Literal) {n : ℕ} (hn : n < 0x20) :
    l.pushUnit n = l.push (Char.ofNat n) := by
  have hhigh : isHighSurrogate n = false := by simp [isHighSurrogate]; omega
  have hlow : isLowSurrogate n = false := by simp [isLowSurrogate]; omega
  simp [Literal.pushUnit, hhigh, hlow]

theorem readText_control (l : Literal) {c : Char} (hc : c.toNat < 0x20) (cs : List Char) :
    readText l ('\\' :: 'u' :: '0' :: '0' :: hexDigit (c.toNat / 16) ::
      hexDigit (c.toNat % 16) :: cs) = readText (l.push c) cs := by
  rw [readText, unit?_control hc]
  simp only [pushUnit_control l hc, Char.ofNat_toNat]

@[simp] theorem readText_escape (l : Literal) (c : Char) (cs : List Char) :
    readText l (escape c ++ cs) = readText (l.push c) cs := by
  rw [escape]
  -- the seven characters that a letter escapes
  iterate 7
    split
    next h => subst h; exact readText_shortEscape (by decide) rfl cs
  split
  next hc => exact readText_control l hc cs
  next hq hb _ _ _ _ _ hc => exact readText_plain hq hb hc cs

/-- Characters are added one by one, in the order in which they stand. -/
theorem readText_flatMap_escape (done cs rest : List Char) :
    readText (.ofChars done) (cs.flatMap escape ++ '"' :: rest) =
      some (.text (String.ofList (done.reverse ++ cs)), rest) := by
  induction cs generalizing done with
  | nil => simp [readText]
  | cons c cs ih => simp [ih]

@[simp] theorem readText_quoted (s : String) (rest : List Char) :
    readText {} (s.toList.flatMap escape ++ '"' :: rest) = some (.text s, rest) := by
  rw [show ({} : Literal) = .ofChars [] from rfl, readText_flatMap_escape]
  simp

/-! ## Numbers -/

theorem isDigit_of_mem_toDigits {n : ℕ} {c : Char} (hc : c ∈ Nat.toDigits 10 n) : isDigit c := by
  have hd := Nat.isDigit_of_mem_toDigits (by decide) (by decide) hc
  simpa [isDigit, Char.isDigit, Char.le_def] using hd

/-- The digits of a number do not start with zero, unless it is zero. -/
theorem head_toDigits {n : ℕ} (hn : 0 < n) : (Nat.toDigits 10 n).head? ≠ some '0' := by
  induction n using Nat.strong_induction_on with
  | _ n ih =>
      rcases Nat.lt_or_ge n 10 with hlt | hge
      · rw [Nat.toDigits_of_lt_base hlt]
        simp only [List.head?_cons, ne_eq, Option.some.injEq, Nat.digitChar_eq_zero]
        omega
      · rw [Nat.toDigits_of_base_le (by decide) hge,
          List.head?_append_of_ne_nil _ Nat.toDigits_ne_nil]
        exact ih (n / 10) (by omega) (by omega)

@[simp] theorem ofDigits_toDigits (n : ℕ) : ofDigits (Nat.toDigits 10 n) = n :=
  Nat.ofDigitChars_ten_toDigits

theorem readWhole_toDigits (n : ℕ) {rest : List Char} (hr : Stops continuesNumber rest) :
    readWhole (Nat.toDigits 10 n ++ rest) = some (n, rest) := by
  have hdigits : ∀ c ∈ Nat.toDigits 10 n, isDigit c = true := fun c hc =>
    isDigit_of_mem_toDigits hc
  have hstop : Stops isDigit rest := hr.mono fun c hc => by simp [continuesNumber, hc]
  unfold readWhole
  rw [takeWhile_run hdigits hstop, dropWhile_run hdigits hstop]
  split
  next h => exact absurd h Nat.toDigits_ne_nil
  next c cs h =>
    -- two digits, the first of them zero, spell no number
    rcases Nat.eq_zero_or_pos n with rfl | hn
    · simp [Nat.toDigits_zero] at h
    · exact absurd (by rw [h]; rfl) (head_toDigits hn)
  next => simp

theorem readFraction_of_stops {rest : List Char} (hr : Stops continuesNumber rest) :
    readFraction rest = some ([], rest) := by
  cases rest with
  | nil => rfl
  | cons c rest =>
      have hc : c ≠ '.' := by
        rintro rfl
        exact absurd (hr '.' rfl) (by decide)
      rw [readFraction]
      simp [hc]

theorem readExponent_of_stops {rest : List Char} (hr : Stops continuesNumber rest) :
    readExponent rest = some (none, rest) := by
  cases rest with
  | nil => rfl
  | cons c rest =>
      have hc : ¬ (c = 'e' ∨ c = 'E') := by
        rintro (rfl | rfl)
        · exact absurd (hr 'e' rfl) (by decide)
        · exact absurd (hr 'E' rfl) (by decide)
      unfold readExponent
      exact if_neg hc

theorem readMagnitude_toDigits (n : ℕ) {rest : List Char} (hr : Stops continuesNumber rest) :
    readMagnitude false (Nat.toDigits 10 n ++ rest) = some (Data.ofNat n, rest) := by
  simp only [readMagnitude, readWhole_toDigits n hr, readFraction_of_stops hr,
    readExponent_of_stops hr]
  rfl

/-! ## Values, items and entries -/

/-- What a piece of text stands for: a value, or the items or entries of which there is at least
one, up to the closing bracket. -/
inductive Part
  | value (d : Data)
  | items (ds : List Data)
  | entries (es : List (Data × Data))

inductive Spells : Part → List Char → Prop
  | null : Spells (.value .null) nullText
  | bool (b : Bool) : Spells (.value (.bool b)) (boolText b)
  | natural (n : ℕ) : Spells (.value (Data.ofNat n)) (Nat.toDigits 10 n)
  | text (s : String) : Spells (.value (.text s)) (quoted s)
  | emptyList : Spells (.value (.list [])) ['[', ']']
  | emptyTable : Spells (.value (.table [])) ['\x7b', '\x7d']
  | list {ds : List Data} {cs : List Char} :
      Spells (.items ds) cs → Spells (.value (.list ds)) ('[' :: cs)
  | table {es : List (Data × Data)} {cs : List Char} :
      Spells (.entries es) cs → Spells (.value (.table es)) ('\x7b' :: cs)
  | lastItem {b b' cs : List Char} {d : Data} : Blank b → Spells (.value d) cs → Blank b' →
      Spells (.items [d]) (b ++ cs ++ b' ++ [']'])
  | item {b cs more : List Char} {d : Data} {ds : List Data} : Blank b → Spells (.value d) cs →
      Spells (.items ds) more → Spells (.items (d :: ds)) (b ++ cs ++ ',' :: more)
  | lastEntry {b b' b'' cs : List Char} {k : String} {d : Data} : Blank b → Blank b' →
      Spells (.value d) cs → Blank b'' →
      Spells (.entries [(.text k, d)]) (b ++ quoted k ++ ':' :: (b' ++ cs) ++ b'' ++ ['\x7d'])
  | entry {b b' cs more : List Char} {k : String} {d : Data} {es : List (Data × Data)} :
      Blank b → Blank b' → Spells (.value d) cs → Spells (.entries es) more →
      Spells (.entries ((.text k, d) :: es)) (b ++ quoted k ++ ':' :: (b' ++ cs) ++ ',' :: more)

theorem not_isSpace_of_isDigit {c : Char} (hc : isDigit c) : isSpace c = false := by
  have hne : ∀ x, isDigit x = false → (c == x) = false := fun x hx =>
    beq_false_of_ne (ne_of_class hc hx)
  simp only [isSpace, hne ' ' rfl, hne '\n' rfl, hne '\t' rfl, hne '\r' rfl, Bool.or_self]

/-- The first character after blanks closes nothing. -/
theorem Spells.head {p : Part} {cs : List Char} (h : Spells p cs) (rest : List Char) :
    ∃ c more, skipSpace (cs ++ rest) = c :: more ∧ c ≠ ']' ∧ c ≠ '\x7d' := by
  induction h generalizing rest with
  | null => exact ⟨'n', _, rfl, by decide⟩
  | bool b => cases b <;> exact ⟨_, _, rfl, by decide⟩
  | natural n =>
      obtain ⟨c, cs, hcs⟩ := List.exists_cons_of_ne_nil (Nat.toDigits_ne_nil (n := n) (b := 10))
      have hc : isDigit c := isDigit_of_mem_toDigits (hcs ▸ List.mem_cons_self)
      rw [hcs, List.cons_append, skipSpace_cons (not_isSpace_of_isDigit hc)]
      exact ⟨c, _, rfl, ne_of_class hc rfl, ne_of_class hc rfl⟩
  | text s => exact ⟨'"', _, rfl, by decide⟩
  | emptyList | list => exact ⟨'[', _, rfl, by decide⟩
  | emptyTable | table => exact ⟨'\x7b', _, rfl, by decide⟩
  | lastItem hb _ _ ih | item hb _ _ ih =>
      simp only [List.append_assoc, skipSpace_append hb]
      exact ih _
  | lastEntry hb | entry hb =>
      simp only [List.append_assoc, skipSpace_append hb]
      exact ⟨'"', _, rfl, by decide⟩

theorem readValue_digit {c : Char} (hc : isDigit c) (fuel : ℕ) (cs : List Char) :
    readValue (fuel + 1) (c :: cs) = readMagnitude false (c :: cs) := by
  rw [readValue, skipSpace_cons (not_isSpace_of_isDigit hc)]
  split
  case h_1 h => cases h
  case h_9 => rfl
  all_goals
    next h =>
      cases h
      cases hc

theorem readValue_natural (n fuel : ℕ) {rest : List Char} (hr : Stops continuesNumber rest) :
    readValue (fuel + 1) (Nat.toDigits 10 n ++ rest) = some (Data.ofNat n, rest) := by
  have hread := readMagnitude_toDigits n hr
  obtain ⟨c, cs, hcs⟩ := List.exists_cons_of_ne_nil (Nat.toDigits_ne_nil (n := n) (b := 10))
  have hc : isDigit c := isDigit_of_mem_toDigits (hcs ▸ List.mem_cons_self)
  rw [hcs, List.cons_append] at hread ⊢
  rw [readValue_digit hc, hread]

theorem readValue_list {ds : List Data} {cs : List Char} (h : Spells (.items ds) cs) (fuel : ℕ)
    (rest : List Char) :
    readValue (fuel + 1) ('[' :: cs ++ rest) = readItems fuel [] (cs ++ rest) := by
  obtain ⟨c, more, hskip, hclose, -⟩ := h.head rest
  rw [List.cons_append, readValue, skipSpace_cons rfl]
  simp only [hskip]
  split
  next h => exact absurd (List.cons.inj h).1 hclose
  next => rfl

theorem readValue_table {es : List (Data × Data)} {cs : List Char} (h : Spells (.entries es) cs)
    (fuel : ℕ) (rest : List Char) :
    readValue (fuel + 1) ('\x7b' :: cs ++ rest) = readEntries fuel [] (cs ++ rest) := by
  obtain ⟨c, more, hskip, -, hclose⟩ := h.head rest
  rw [List.cons_append, readValue, skipSpace_cons rfl]
  simp only [hskip]
  split
  next h => exact absurd (List.cons.inj h).1 hclose
  next => rfl

theorem readItems_last {fuel : ℕ} {cs b rest : List Char} {d : Data} (hb : Blank b)
    (hread : readValue fuel cs = some (d, b ++ ']' :: rest)) (done : List Data) :
    readItems (fuel + 1) done cs = some (.list (done.reverse ++ [d]), rest) := by
  have hskip := skipSpace_append_cons hb (show isSpace ']' = false from rfl) rest
  simp only [readItems, hread, hskip, List.reverse_cons]

theorem readItems_next {fuel : ℕ} {cs rest : List Char} {d : Data}
    (hread : readValue fuel cs = some (d, ',' :: rest)) (done : List Data) :
    readItems (fuel + 1) done cs = readItems fuel (d :: done) rest := by
  have hskip := skipSpace_cons (show isSpace ',' = false from rfl) rest
  simp only [readItems, hread, hskip]

theorem append_quoted (b : List Char) (k : String) (cs : List Char) :
    b ++ quoted k ++ cs = b ++ '"' :: (k.toList.flatMap escape ++ '"' :: cs) := by
  simp [quoted]

theorem readEntries_last {fuel : ℕ} {b b' cs rest : List Char} {d : Data} (hb : Blank b)
    (k : String) (hb' : Blank b') (hread : readValue fuel cs = some (d, b' ++ '\x7d' :: rest))
    (done : List (Data × Data)) :
    readEntries (fuel + 1) done (b ++ quoted k ++ ':' :: cs) =
      some (.table (done.reverse ++ [(.text k, d)]), rest) := by
  have hcolon := skipSpace_cons (show isSpace ':' = false from rfl) cs
  have hskip := skipSpace_append_cons hb' (show isSpace '\x7d' = false from rfl) rest
  rw [append_quoted, readEntries, skipSpace_append_cons hb rfl]
  simp only [readText_quoted, hcolon, hread, hskip, List.reverse_cons]

theorem readEntries_next {fuel : ℕ} {b cs rest : List Char} {d : Data} (hb : Blank b)
    (k : String) (hread : readValue fuel cs = some (d, ',' :: rest)) (done : List (Data × Data)) :
    readEntries (fuel + 1) done (b ++ quoted k ++ ':' :: cs) =
      readEntries fuel ((.text k, d) :: done) rest := by
  have hcolon := skipSpace_cons (show isSpace ':' = false from rfl) cs
  have hskip := skipSpace_cons (show isSpace ',' = false from rfl) rest
  rw [append_quoted, readEntries, skipSpace_append_cons hb rfl]
  simp only [readText_quoted, hcolon, hread, hskip]

/-- The reader, given so much fuel, returns the part from the text in front of the rest. -/
def Part.ReadFrom (cs : List Char) (fuel : ℕ) (rest : List Char) : Part → Prop
  | .value d => Stops continuesNumber rest → readValue fuel (cs ++ rest) = some (d, rest)
  | .items ds => ∀ done, readItems fuel done (cs ++ rest) = some (.list (done.reverse ++ ds), rest)
  | .entries es =>
      ∀ done, readEntries fuel done (cs ++ rest) = some (.table (done.reverse ++ es), rest)

/-- The induction follows the text; each step into a value or past a comma has read a character, so
that the fuel stays above the length of what is left. -/
theorem Spells.readFrom {p : Part} {cs : List Char} (h : Spells p cs) (fuel : ℕ)
    (hfuel : cs.length < fuel) (rest : List Char) : p.ReadFrom cs fuel rest := by
  induction h generalizing fuel rest with
    obtain ⟨fuel, rfl⟩ := Nat.exists_eq_succ_of_ne_zero (Nat.ne_zero_of_lt hfuel)
  | null | emptyList | emptyTable => exact fun _ => rfl
  | bool b => cases b <;> exact fun _ => rfl
  | natural n => exact readValue_natural n fuel
  | text s =>
      intro _
      rw [← List.nil_append (quoted s), append_quoted, readValue, List.nil_append,
        skipSpace_cons rfl]
      exact readText_quoted s rest
  | list h ih =>
      intro _
      rw [readValue_list h]
      exact ih fuel (Nat.lt_of_succ_lt_succ hfuel) rest []
  | table h ih =>
      intro _
      rw [readValue_table h]
      exact ih fuel (Nat.lt_of_succ_lt_succ hfuel) rest []
  | @lastItem b b' cs d hb _ hb' ih =>
      intro done
      simp only [List.length_append, List.length_singleton] at hfuel
      have hread := ih fuel (by omega) (b' ++ ']' :: rest)
        (stops_blank_append hb' (stops_cons rfl rest))
      rw [← readValue_append hb] at hread
      simpa using readItems_last hb' hread done
  | @item b cs more d ds hb _ _ ihd ih =>
      intro done
      simp only [List.length_append, List.length_cons] at hfuel
      have hread := ihd fuel (by omega) (',' :: (more ++ rest)) (stops_cons rfl _)
      rw [← readValue_append hb] at hread
      have hmore := ih fuel (by omega) rest (d :: done)
      rw [← readItems_next hread done] at hmore
      simpa using hmore
  | @lastEntry b b' b'' cs k d hb hb' _ hb'' ih =>
      intro done
      simp only [List.length_append, List.length_cons] at hfuel
      have hread := ih fuel (by omega) (b'' ++ '\x7d' :: rest)
        (stops_blank_append hb'' (stops_cons rfl rest))
      rw [← readValue_append hb'] at hread
      simpa using readEntries_last hb k hb'' hread done
  | @entry b b' cs more k d es hb hb' _ _ ihd ih =>
      intro done
      simp only [List.length_append, List.length_cons] at hfuel
      have hread := ihd fuel (by omega) (',' :: (more ++ rest)) (stops_cons rfl _)
      rw [← readValue_append hb'] at hread
      have hmore := ih fuel (by omega) rest ((.text k, d) :: done)
      rw [← readEntries_next hb k hread done] at hmore
      simpa using hmore

/-- A text that spells a document is read as that document, also with blanks at its end. -/
theorem readChars_of_spells {d : Data} {cs b : List Char} (h : Spells (.value d) cs)
    (hb : Blank b) : readChars (cs ++ b) = some d := by
  have hstops : Stops continuesNumber b := by
    simpa using stops_blank_append hb (stops_nil _)
  have hread : readValue ((cs ++ b).length + 1) (cs ++ b) = some (d, b) := by
    refine h.readFrom _ ?_ b hstops
    rw [List.length_append]
    omega
  have hrest : skipSpace b = [] := by
    rw [← List.append_nil b, skipSpace_append hb]
    rfl
  simp only [readChars, hread, hrest, List.isEmpty_nil, if_true]

/-! ## The two layouts -/

/-- Scalars that a text spells exactly as they are. -/
inductive Leaf : Data → Prop
  | null : Leaf .null
  | bool (b : Bool) : Leaf (.bool b)
  | natural {n : ℕ} : n ≤ Number.maxNatural → Leaf (Data.ofNat n)
  | text (s : String) : Leaf (.text s)

theorem text_ofNat {n : ℕ} (hn : n ≤ Number.maxNatural) :
    (Number.ofNat n).text = Nat.toDigits 10 n := by
  have hnatural : (Number.ofNat n).natural? = some n := by
    simp [Number.natural?, Number.isWhole, Number.ofNat, hn]
  simp only [Number.text, hnatural]

theorem Leaf.spells {d : Data} (h : Leaf d) : Spells (.value d) (scalar d) := by
  cases h with
  | null => exact .null
  | bool b => exact .bool b
  | natural hn =>
      rw [Data.ofNat, scalar, text_ofNat hn]
      exact .natural _
  | text s => exact .text s

theorem Leaf.compactChars_eq {d : Data} (h : Leaf d) : compactChars d = scalar d := by
  cases h <;> rw [compactChars] <;> simp [Data.ofNat]

theorem Leaf.prettyChars_eq {d : Data} (h : Leaf d) (level : ℕ) :
    prettyChars level d = scalar d := by
  cases h <;> rw [prettyChars] <;> simp [Data.ofNat]

/-- Items with the same blanks before each of them. -/
theorem spells_items {print : Data → List Char} {more : List Data → List Char} {b b' : List Char}
    (hb : Blank b) (hb' : Blank b') (hnil : more [] = b' ++ [']'])
    (hcons : ∀ d ds, more (d :: ds) = ',' :: b ++ print d ++ more ds) {d : Data} {ds : List Data}
    (h : ∀ x ∈ d :: ds, Spells (.value x) (print x)) :
    Spells (.items (d :: ds)) (b ++ print d ++ more ds) := by
  induction ds generalizing d with
  | nil =>
      rw [hnil, ← List.append_assoc]
      exact .lastItem hb (h d List.mem_cons_self) hb'
  | cons e ds ih =>
      rw [hcons, List.cons_append, List.cons_append]
      exact .item hb (h d List.mem_cons_self) (ih fun x hx => h x (List.mem_cons_of_mem _ hx))

/-- Entries with the same blanks before each of them and after each colon. -/
theorem spells_entries {print : Data → List Char} {more : List (Data × Data) → List Char}
    {b b' b'' : List Char} (hb : Blank b) (hb' : Blank b') (hb'' : Blank b'')
    (hnil : more [] = b'' ++ ['\x7d'])
    (hcons : ∀ k d es, more ((.text k, d) :: es) =
      ',' :: b ++ quoted k ++ ':' :: (b' ++ print d) ++ more es)
    {f : String × Data} {fs : List (String × Data)}
    (h : ∀ x ∈ f :: fs, Spells (.value x.2) (print x.2)) :
    Spells (.entries ((f :: fs).map fun f => (.text f.1, f.2)))
      (b ++ quoted f.1 ++ ':' :: (b' ++ print f.2) ++ more (fs.map fun f => (.text f.1, f.2))) := by
  induction fs generalizing f with
  | nil =>
      rw [List.map_nil, hnil, ← List.append_assoc]
      exact .lastEntry hb hb' (h f List.mem_cons_self) hb''
  | cons g fs ih =>
      rw [List.map_cons, List.map_cons, hcons]
      exact .entry hb hb' (h f List.mem_cons_self) (ih fun x hx => h x (List.mem_cons_of_mem _ hx))

@[simp] theorem compactChars_text (s : String) : compactChars (.text s) = quoted s :=
  (Leaf.text s).compactChars_eq

@[simp] theorem prettyChars_text (level : ℕ) (s : String) :
    prettyChars level (.text s) = quoted s :=
  (Leaf.text s).prettyChars_eq level

theorem spells_compactChars {d : Data} (h : Data.Tree Leaf d) :
    Spells (.value d) (compactChars d) := by
  induction h with
  | leaf hd => exact hd.compactChars_eq ▸ hd.spells
  | @list items _ ih =>
      cases items with
      | nil => exact .emptyList
      | cons d ds =>
          rw [compactChars, compactItems]
          refine .list (spells_items blank_nil blank_nil rfl (fun d ds => ?_) ih)
          rw [compactMoreItems]
          rfl
  | @object fields _ ih =>
      cases fields with
      | nil => exact .emptyTable
      | cons f fs =>
          rw [Data.object, List.map_cons, compactChars, compactEntries, compactChars_text]
          refine .table (spells_entries blank_nil blank_nil blank_nil rfl (fun k d es => ?_) ih)
          rw [compactMoreEntries, compactChars_text]
          rfl

theorem spells_prettyChars {d : Data} (h : Data.Tree Leaf d) (level : ℕ) :
    Spells (.value d) (prettyChars level d) := by
  induction h generalizing level with
  | leaf hd => exact hd.prettyChars_eq level ▸ hd.spells
  | @list items _ ih =>
      cases items with
      | nil => exact .emptyList
      | cons d ds =>
          rw [prettyChars]
          refine .list (spells_items (blank_newline _) (blank_newline level) ?_ (fun d ds => ?_)
            fun x hx => ih x hx (level + 1))
          · rw [prettyItems]
          · rw [prettyItems]
  | @object fields _ ih =>
      cases fields with
      | nil => exact .emptyTable
      | cons f fs =>
          have hspace : Blank [' '] := List.forall_mem_singleton.mpr rfl
          rw [Data.object, List.map_cons, prettyChars, prettyChars_text]
          refine .table (spells_entries (blank_newline _) hspace (blank_newline level) ?_
            (fun k d es => ?_) fun x hx => ih x hx (level + 1))
          · rw [prettyEntries]
          · rw [prettyEntries, prettyChars_text]
            rfl

/-- Either layout of a document is read as the document. -/
theorem read_compact {d : Data} (h : Data.Tree Leaf d) : read (compact d) = some d := by
  rw [read, compact, String.toList_ofList, ← List.append_nil (compactChars d)]
  exact readChars_of_spells (spells_compactChars h) blank_nil

theorem read_pretty {d : Data} (h : Data.Tree Leaf d) : read (pretty d) = some d := by
  rw [read, pretty, String.toList_ofList]
  exact readChars_of_spells (spells_prettyChars h 0) (List.forall_mem_singleton.mpr rfl)

end CompletionDb.Json
