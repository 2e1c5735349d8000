import CompletionDb.Proofs.SignatureScan

/-!
# Where names in a signature come from

The name of a parameter and the text of its type are maximal runs in the text of its piece. A piece
is a part of the parameter list between two commas, less some square brackets, which the cutting of
the list has dropped. So the name is a maximal run of the line as well, but for square brackets that
may interrupt it: `key[index]` is read as the name `keyindex`, `list[int]` as the type `listint`.
Where no square brackets stand directly between two characters of names, no name is put together.

The origin of the pieces is an invariant of the cutting: the text behind the last comma, less some
square brackets, is the piece that is being read.
-/
namespace CompletionDb

namespace Text

/-- Blanks at the ends of a text do not lengthen a run. -/
theorem MaximalRun.of_trim {p : Char → Bool} (hp : ∀ c, isBlank c = true → p c = false)
    {run text : List Char} (h : MaximalRun p run (trim text)) : MaximalRun p run text := by
  obtain ⟨hne, hrun, before, after, htext, hbefore, hafter⟩ := h
  obtain ⟨front, back, hpad, hfront, hback⟩ := exists_trim_pad text
  refine ⟨hne, hrun, front ++ before, after ++ back, ?_, ?_, ?_⟩
  · rw [hpad, htext]
    simp
  · exact (ends_of_forall fun c hc => hp c (hfront c hc)).append hbefore
  · exact hafter.append (stops_of_forall fun c hc => hp c (hback c hc))

end Text

namespace Signature
open Text

/-! ## Dropped brackets -/

def isSquare (c : Char) : Bool := c == '[' || c == ']'

theorem isDottedWord_of_isSquare {c : Char} (h : isSquare c = true) : isDottedWord c = false := by
  simp only [isSquare, Bool.or_eq_true, beq_iff_eq] at h
  rcases h with rfl | rfl <;> rfl

/-- A text and what is left of it when some square brackets are dropped. -/
inductive Stripped : List Char → List Char → Prop
  | nil : Stripped [] []
  | keep (c : Char) {cs text : List Char} (h : Stripped cs text) : Stripped (c :: cs) (c :: text)
  | drop {c : Char} {cs text : List Char} (hc : isSquare c = true) (h : Stripped cs text) :
      Stripped (c :: cs) text

namespace Stripped

theorem append {a b s t : List Char} (h : Stripped a s) (h' : Stripped b t) :
    Stripped (a ++ b) (s ++ t) := by
  induction h with
  | nil => exact h'
  | keep c _ ih => exact .keep c ih
  | drop hc _ ih => exact .drop hc ih

theorem split {cs s t : List Char} (h : Stripped cs (s ++ t)) :
    ∃ a b, cs = a ++ b ∧ Stripped a s ∧ Stripped b t := by
  generalize htext : s ++ t = text at h
  induction h generalizing s with
  | nil =>
      obtain ⟨rfl, rfl⟩ := List.append_eq_nil_iff.mp htext
      exact ⟨[], [], rfl, .nil, .nil⟩
  | @keep c cs text h ih =>
      cases s with
      | nil =>
          subst htext
          exact ⟨[], c :: cs, rfl, .nil, .keep c h⟩
      | cons d s =>
          obtain ⟨rfl, hrest⟩ : d = c ∧ s ++ t = text := by simpa using htext
          obtain ⟨a, b, rfl, ha, hb⟩ := ih hrest
          exact ⟨d :: a, b, rfl, .keep d ha, hb⟩
  | @drop c cs text hc h ih =>
      obtain ⟨a, b, rfl, ha, hb⟩ := ih htext
      exact ⟨c :: a, b, rfl, .drop hc ha, hb⟩

/-- All that is dropped is square brackets. -/
theorem filter_eq {cs text : List Char} (h : Stripped cs text) :
    cs.filter (fun c => !isSquare c) = text.filter fun c => !isSquare c := by
  induction h with
  | nil => rfl
  | keep c _ ih => rw [List.filter_cons, List.filter_cons, ih]
  | drop hc _ ih => rw [List.filter_cons_of_neg (by simp [hc]), ih]

theorem stops {p : Char → Bool} (hp : ∀ c, isSquare c = true → p c = false) {cs text : List Char}
    (h : Stripped cs text) (htext : Stops p text) : Stops p cs := by
  cases h with
  | nil => exact htext
  | keep c _ => exact stops_cons (htext c rfl) _
  | drop hc _ => exact stops_cons (hp _ hc) _

theorem reverse {cs text : List Char} (h : Stripped cs text) :
    Stripped cs.reverse text.reverse := by
  induction h with
  | nil => exact .nil
  | keep c _ ih =>
      rw [List.reverse_cons, List.reverse_cons]
      exact ih.append (.keep c .nil)
  | drop hc _ ih =>
      have hlast := ih.append (.drop hc .nil)
      rwa [List.append_nil, ← List.reverse_cons] at hlast

theorem ends {p : Char → Bool} (hp : ∀ c, isSquare c = true → p c = false) {cs text : List Char}
    (h : Stripped cs text) (htext : Ends p text) : Ends p cs := by
  rw [ends_iff_stops_reverse] at htext ⊢
  exact h.reverse.stops hp htext

end Stripped

/-- A run of the class that square brackets may interrupt: without its brackets, a part of the line
is the word, and none of the class stands before or behind it. -/
def BrokenRun (p : Char → Bool) (word line : List Char) : Prop :=
  word ≠ [] ∧ (∀ c ∈ word, p c = true) ∧
    ∃ before part after, line = before ++ (part ++ after) ∧
      part.filter (fun c => !isSquare c) = word ∧ Stops isSquare part ∧ Ends isSquare part ∧
      Ends p before ∧ Stops p after

/-- A maximal run of a text is one of the line from which the text comes, but for brackets. -/
theorem brokenRun_of_maximalRun {p : Char → Bool} (hp : ∀ c, isSquare c = true → p c = false)
    {run text cs before after : List Char} (h : MaximalRun p run text) (hcs : Stripped cs text)
    (hbefore : Ends p before) (hafter : Stops p after) :
    BrokenRun p run (before ++ (cs ++ after)) := by
  obtain ⟨hne, hrun, left, right, rfl, hleft, hright⟩ := h
  obtain ⟨a, rest, rfl, ha, hrest⟩ := hcs.split
  obtain ⟨b, c, rfl, hb, hc⟩ := hrest.split
  obtain ⟨front, part, back, rfl, hfront, hback, hstops, hends⟩ := exists_inner isSquare b
  have hnone : ∀ cs : List Char, (∀ c ∈ cs, isSquare c = true) →
      cs.filter (fun c => !isSquare c) = [] := fun cs h => by simpa using h
  refine ⟨hne, hrun, before ++ (a ++ front), part, back ++ (c ++ after), by simp, ?_, hstops, hends,
    ?_, ?_⟩
  · have hword := hb.filter_eq
    rw [List.filter_append, List.filter_append, hnone front hfront, hnone back hback,
      List.nil_append, List.append_nil] at hword
    rw [hword, List.filter_eq_self]
    intro d hd
    cases hsquare : isSquare d with
    | false => rfl
    | true => exact absurd (hrun d hd) (by simp [hp d hsquare])
  · exact hbefore.append ((ha.ends hp hleft).append
      (ends_of_forall fun d hd => hp d (hfront d hd)))
  · exact (stops_of_forall fun d hd => hp d (hback d hd)).append
      ((hc.stops hp hright).append hafter)

/-- No square brackets stand directly between two characters of names. -/
def Unbroken : List Char → Prop
  | [] => True
  | c :: cs =>
      (isDottedWord c = true → Stops isSquare cs ∨ Stops isDottedWord (cs.dropWhile isSquare)) ∧
        Unbroken cs

instance Unbroken.decidable : (line : List Char) → Decidable (Unbroken line)
  | [] => isTrue trivial
  | c :: cs =>
      have := Unbroken.decidable cs
      inferInstanceAs (Decidable ((isDottedWord c = true →
        Stops isSquare cs ∨ Stops isDottedWord (cs.dropWhile isSquare)) ∧ Unbroken cs))

theorem Unbroken.of_append {a b : List Char} (h : Unbroken (a ++ b)) : Unbroken b := by
  induction a with
  | nil => exact h
  | cons c a ih => exact ih h.2

/-- Behind a character of a name no brackets stand before another one. -/
theorem Unbroken.stops {c : Char} {part after : List Char} (h : Unbroken (c :: (part ++ after)))
    (hc : isDottedWord c = true)
    (hpart : ∀ d ∈ part.filter (fun c => !isSquare c), isDottedWord d = true)
    (hends : Ends isSquare part) : Stops isSquare part := by
  intro d hd
  rcases h.1 hc with hnext | hword
  · exact hnext d (by rw [List.head?_append, Option.mem_def.mp hd]; rfl)
  · cases hdrop : part.dropWhile isSquare with
    | nil =>
        -- the part would end with a bracket
        have hall := List.dropWhile_eq_nil_iff.mp hdrop
        have hne : part ≠ [] := List.ne_nil_of_mem (List.mem_of_mem_head? hd)
        have hlast := hends _ (List.getLast?_eq_getLast_of_ne_nil hne)
        rw [hall _ (List.getLast_mem hne)] at hlast
        cases hlast
    | cons e rest =>
        have he : isSquare e = false := stops_dropWhile isSquare part e (by rw [hdrop]; rfl)
        have hmem : e ∈ part := (List.dropWhile_suffix isSquare).subset (by rw [hdrop]; simp)
        have hstop := hword e (by rw [List.dropWhile_append, hdrop]; rfl)
        rw [hpart e (List.mem_filter.mpr ⟨hmem, by simp [he]⟩)] at hstop
        cases hstop

/-- A part that begins and ends with a character of a name has no brackets. -/
theorem Unbroken.filter_eq {part after : List Char} (h : Unbroken (part ++ after))
    (hpart : ∀ c ∈ part.filter (fun c => !isSquare c), isDottedWord c = true)
    (hstops : Stops isSquare part) (hends : Ends isSquare part) :
    part.filter (fun c => !isSquare c) = part := by
  induction part with
  | nil => rfl
  | cons c part ih =>
      have hc : isSquare c = false := hstops c rfl
      rw [List.filter_cons_of_pos (by simp [hc])] at hpart ⊢
      rw [List.forall_mem_cons] at hpart
      have hrest : Ends isSquare part := by
        intro d hd
        have hne : part ≠ [] := List.ne_nil_of_mem (List.mem_of_mem_getLast? hd)
        exact hends d (by rwa [List.getLast?_cons_of_ne_nil hne])
      rw [ih h.2 hpart.2 (h.stops hpart.1 hpart.2 hrest) hrest]

theorem BrokenRun.maximalRun {p : Char → Bool} (hp : ∀ c, p c = true → isDottedWord c = true)
    {word line : List Char} (h : BrokenRun p word line) (hline : Unbroken line) :
    MaximalRun p word line := by
  obtain ⟨hne, hword, before, part, after, rfl, hpart, hstops, hends, hbefore, hafter⟩ := h
  have hself : part.filter (fun c => !isSquare c) = part := by
    refine hline.of_append.filter_eq ?_ hstops hends
    rw [hpart]
    exact fun c hc => hp c (hword c hc)
  rw [hself] at hpart
  subst hpart
  exact ⟨hne, hword, before, after, rfl, hbefore, hafter⟩

/-! ## Origin of the pieces -/

/-- Groups are counted at square brackets and pieces end at commas. -/
def Effect.Fits (c : Char) : Effect → Prop
  | .keep _ _ _ => True
  | .group _ _ => isSquare c = true
  | .cut => c = ','

namespace Cut

theorem fits_effect (s : Cut) (c : Char) : (s.effect c).Fits c := by
  rw [effect]
  iterate 4 refine iteInduction (motive := Effect.Fits c) (fun _ => trivial) fun _ => ?_
  iterate 2 refine iteInduction (motive := Effect.Fits c) (fun h => by rw [h]; rfl) fun _ => ?_
  iterate 2 refine iteInduction (motive := Effect.Fits c) (fun _ => trivial) fun _ => ?_
  exact iteInduction (motive := Effect.Fits c) (fun h => h.1) fun _ => trivial

theorem mem_close {s : Cut} {p : Piece} (h : p ∈ s.close) :
    p ∈ s.pieces ∨ p.text = trim s.current.reverse := by
  simp only [close] at h
  split_ifs at h
  · exact .inl h
  · rcases List.mem_cons.mp h with rfl | hmem
    · exact .inr rfl
    · exact .inl hmem

/-- What has been read is known to be the source of the finished pieces and of the current one. -/
structure Tracks (s : Cut) (read : List Char) : Prop where
  current : ∃ front part, read = front ++ part ∧ (∀ c ∈ front.getLast?, c = ',') ∧
    Stripped part s.current.reverse
  pieces : ∀ p ∈ s.pieces, ∃ front part back text, read = front ++ (part ++ ',' :: back) ∧
    (∀ c ∈ front.getLast?, c = ',') ∧ Stripped part text ∧ p.text = trim text

theorem Tracks.step {s : Cut} {read : List Char} (h : s.Tracks read) (c : Char) :
    (s.step c).Tracks (read ++ [c]) := by
  obtain ⟨front, part, hread, hfront, hpart⟩ := h.current
  have hpieces : ∀ p ∈ s.pieces, ∃ front part back text,
      read ++ [c] = front ++ (part ++ ',' :: back) ∧ (∀ c ∈ front.getLast?, c = ',') ∧
        Stripped part text ∧ p.text = trim text := by
    intro p hp
    obtain ⟨front, part, back, text, hread, hfront, hpart, htext⟩ := h.pieces p hp
    exact ⟨front, part, back ++ [c], text, by simp [hread], hfront, hpart, htext⟩
  have hfits := s.fits_effect c
  rw [step_eq_apply]
  cases heffect : s.effect c with
  | keep nest inDefault quote =>
      refine ⟨⟨front, part ++ [c], by simp [hread], hfront, ?_⟩, hpieces⟩
      simpa [apply] using hpart.append (.keep c .nil)
  | group groups optional =>
      rw [heffect] at hfits
      refine ⟨⟨front, part ++ [c], by simp [hread], hfront, ?_⟩, hpieces⟩
      simpa [apply] using hpart.append (.drop hfits .nil)
  | cut =>
      rw [heffect] at hfits
      obtain rfl : c = ',' := hfits
      refine ⟨⟨read ++ [','], [], by simp, by simp, .nil⟩, ?_⟩
      intro p hp
      rcases mem_close hp with hmem | htext
      · exact hpieces p hmem
      · exact ⟨front, part, [], _, by simp [hread], hfront, hpart, htext⟩

theorem tracks_foldl (read : List Char) : (read.foldl step {}).Tracks read := by
  induction read using List.reverseRecOn with
  | nil => exact ⟨⟨[], [], rfl, by simp, .nil⟩, by simp⟩
  | append_singleton read c ih =>
      rw [List.foldl_append]
      exact ih.step c

end Cut

/-- Each piece is what stands between two commas, less some square brackets and the blanks at its
ends. -/
theorem exists_source {params : List Char} {p : Piece} (h : p ∈ pieces params) :
    ∃ front part back text, params = front ++ (part ++ back) ∧
      (∀ c ∈ front.getLast?, c = ',') ∧ (∀ c ∈ back.head?, c = ',') ∧ Stripped part text ∧
      p.text = trim text := by
  have htracks := Cut.tracks_foldl params
  rcases Cut.mem_close (List.mem_reverse.mp h) with hmem | htext
  · obtain ⟨front, part, back, text, hread, hfront, hpart, htext⟩ := htracks.pieces p hmem
    exact ⟨front, part, ',' :: back, text, hread, hfront, by simp, hpart, htext⟩
  · obtain ⟨front, part, hread, hfront, hpart⟩ := htracks.current
    exact ⟨front, part, [], _, by simpa using hread, hfront, by simp, hpart, htext⟩

/-! ## Names and types of a piece -/

theorem readStars_eq (cs : List Char) :
    ∃ stars, cs = stars ++ (readStars cs).2 ∧ ∀ c ∈ stars, c = '*' := by
  unfold readStars
  split
  · exact ⟨['*', '*'], rfl, by simp⟩
  · exact ⟨['*'], rfl, by simp⟩
  · exact ⟨[], rfl, by simp⟩

theorem dropDollar_eq (cs : List Char) :
    ∃ dollar, cs = dollar ++ dropDollar cs ∧ ∀ c ∈ dollar, c = '$' := by
  unfold dropDollar
  split
  · exact ⟨['$'], rfl, by simp⟩
  · exact ⟨[], rfl, by simp⟩

theorem afterMark_eq_some {mark : Char} {cs rest : List Char} (h : afterMark mark cs = some rest) :
    ∃ gap gap', cs = gap ++ (mark :: gap') ++ rest ∧ ∀ c ∈ gap', isGap c = true := by
  unfold afterMark at h
  split at h
  · cases h
  next c tail hskip =>
    split_ifs at h with hmark
    refine ⟨cs.takeWhile isGap, tail.takeWhile isGap, ?_, fun c hc => List.mem_takeWhile_imp hc⟩
    have hrest : skipGap tail = rest := Option.some.inj h
    calc cs = cs.takeWhile isGap ++ skipGap cs := List.takeWhile_append_dropWhile.symm
      _ = cs.takeWhile isGap ++ mark :: tail := by rw [hskip, hmark]
      _ = cs.takeWhile isGap ++ mark :: (tail.takeWhile isGap ++ skipGap tail) := by
          rw [skipGap, List.takeWhile_append_dropWhile]
      _ = cs.takeWhile isGap ++ (mark :: tail.takeWhile isGap) ++ rest := by simp [hrest]

/-- The text of a type is a maximal run behind a colon. -/
theorem readAnnotation_eq_some {cs word left : List Char}
    (h : readAnnotation cs = (some word, left)) :
    word ≠ [] ∧ (∀ c ∈ word, isDottedWord c = true) ∧ ∃ before after, before ≠ [] ∧
      cs = before ++ (word ++ after) ∧ Ends isDottedWord before ∧ Stops isDottedWord after := by
  unfold readAnnotation at h
  split at h
  · cases h
  next rest hmark =>
    obtain ⟨gap, gap', hcs, hgap⟩ := afterMark_eq_some hmark
    split at h
    · cases h
    next hne =>
      obtain rfl : rest.takeWhile isDottedWord = word := Option.some.inj (Prod.mk.inj h).1
      have hcolon : Ends isDottedWord (':' :: gap') := by
        refine ends_of_forall fun c hc => ?_
        rcases List.mem_cons.mp hc with rfl | hc
        · rfl
        · exact isDottedWord_of_isBlank (isBlank_of_isGap (hgap c hc))
      refine ⟨hne, fun c hc => List.mem_takeWhile_imp hc, gap ++ (':' :: gap'),
        rest.dropWhile isDottedWord, by simp, ?_, ?_, stops_dropWhile _ _⟩
      · rw [List.takeWhile_append_dropWhile, hcs]
      · exact ends_append_of_ne_nil gap (by simp) hcolon

/-- Before the name of a parameter only stars and a dollar sign are skipped. -/
theorem exists_skipped (cs : List Char) : ∃ skipped, cs = skipped ++ dropDollar (readStars cs).2 ∧
    ∀ c ∈ skipped, isDottedWord c = false := by
  obtain ⟨stars, hstars, hstar⟩ := readStars_eq cs
  obtain ⟨dollar, hdollar, hsign⟩ := dropDollar_eq (readStars cs).2
  refine ⟨stars ++ dollar, ?_, ?_⟩
  · rw [List.append_assoc, ← hdollar, ← hstars]
  · intro c hc
    rcases List.mem_append.mp hc with hc | hc
    · rw [hstar c hc]; rfl
    · rw [hsign c hc]; rfl

theorem maximalRun_of_parameter? {builtin : String} {p : Piece} {q : Parameter}
    (h : p.parameter? builtin = some q) : MaximalRun isWord q.name.toList p.text ∧
      ∀ t ∈ q.type, ∃ text, t = resolveChars builtin text ∧
        MaximalRun isDottedWord text p.text := by
  obtain ⟨skipped, htext, hskipped⟩ := exists_skipped p.text
  simp only [Piece.parameter?, Option.ite_none_left_eq_some] at h
  obtain ⟨hcond, h⟩ := h
  obtain rfl := Option.some.inj h
  generalize dropDollar (readStars p.text).2 = cs at *
  have hname : cs.takeWhile isWord ≠ [] := by
    intro hnil
    simp [hnil] at hcond
  constructor
  · rw [String.toList_ofList]
    refine ⟨hname, fun c hc => List.mem_takeWhile_imp hc, skipped, cs.dropWhile isWord, ?_, ?_,
      stops_dropWhile _ _⟩
    · rw [List.takeWhile_append_dropWhile, htext]
    · exact ends_of_forall fun c hc => isWord_of_not_isDottedWord (hskipped c hc)
  · intro t ht
    obtain ⟨text, hannotation, rfl⟩ := Option.map_eq_some_iff.mp ht
    obtain ⟨hne, hword, before, after, hbefore, hrest, hends, hstops⟩ :=
      readAnnotation_eq_some (Prod.ext hannotation rfl)
    refine ⟨text, rfl, hne, hword, (skipped ++ cs.takeWhile isWord) ++ before, after, ?_,
      ends_append_of_ne_nil _ hbefore hends, hstops⟩
    calc p.text = skipped ++ (cs.takeWhile isWord ++ cs.dropWhile isWord) := by
          rw [List.takeWhile_append_dropWhile, htext]
      _ = skipped ++ (cs.takeWhile isWord ++ (before ++ (text ++ after))) := by rw [← hrest]
      _ = _ := by simp

/-- A run of a piece is spelled in the line, up to square brackets. -/
theorem brokenRun_of_mem_pieces {params : List Char} {piece : Piece}
    (hpiece : piece ∈ pieces params)
    {q : Char → Bool} (hq : ∀ c, isDottedWord c = false → q c = false) {run : List Char}
    (hrun : MaximalRun q run piece.text) (name rest : List Char) :
    BrokenRun q run (lineOf name params rest) := by
  obtain ⟨front, part, back, text, rfl, hfront, hback, hpart, htrim⟩ := exists_source hpiece
  rw [htrim] at hrun
  have hwhole := hrun.of_trim fun c hc => hq c (isDottedWord_of_isBlank hc)
  have hbefore : Ends q (name ++ ('(' :: front)) := by
    refine ends_append_of_ne_nil name (by simp) ?_
    refine Ends.append (a := ['(']) (by simpa [Ends] using hq '(' rfl) fun c hc => ?_
    rw [hfront c hc]
    exact hq ',' rfl
  have hafter : Stops q (back ++ ')' :: rest) := by
    refine Stops.append (fun c hc => ?_) (stops_cons (hq ')' rfl) rest)
    rw [hback c hc]
    exact hq ',' rfl
  have hspelled := brokenRun_of_maximalRun (fun c hc => hq c (isDottedWord_of_isSquare hc)) hwhole
    hpart hbefore hafter
  simpa [lineOf] using hspelled

/-- Every name and every type of a parameter is spelled in the line, but for square brackets that
may interrupt it. If no square brackets stand directly between two characters of names, names and
types are maximal runs of the line. -/
theorem names_spelled_in_line {builtin : String} {placeholder : TypeName} {line : List Char}
    {o : Overload} (h : parseLine builtin placeholder line = some o) {p : Parameter}
    (hp : p ∈ o.params) :
    (BrokenRun isWord p.name.toList line ∧
      ∀ t ∈ p.type, ∃ text, t = resolveChars builtin text ∧ BrokenRun isDottedWord text line) ∧
    (Unbroken line → MaximalRun isWord p.name.toList line ∧
      ∀ t ∈ p.type, ∃ text, t = resolveChars builtin text ∧
        MaximalRun isDottedWord text line) := by
  obtain ⟨name, params, rest, rfl, -, -, -, rfl⟩ := exists_lineOf_of_parseLine h
  obtain ⟨piece, hpiece, hparameter⟩ := List.mem_filterMap.mp hp
  obtain ⟨hname, htype⟩ := maximalRun_of_parameter? hparameter
  have hname' := brokenRun_of_mem_pieces hpiece (fun c hc => isWord_of_not_isDottedWord hc) hname
    name rest
  have htype' : ∀ t ∈ p.type, ∃ text, t = resolveChars builtin text ∧
      BrokenRun isDottedWord text (lineOf name params rest) := by
    intro t ht
    obtain ⟨text, hresolve, hrun⟩ := htype t ht
    exact ⟨text, hresolve, brokenRun_of_mem_pieces hpiece (fun c hc => hc) hrun name rest⟩
  refine ⟨⟨hname', htype'⟩, fun hline => ⟨?_, fun t ht => ?_⟩⟩
  · exact hname'.maximalRun (fun c hc => isDottedWord_of_isWord hc) hline
  · obtain ⟨text, hresolve, hrun⟩ := htype' t ht
    exact ⟨text, hresolve, hrun.maximalRun (fun c hc => hc) hline⟩

/-- A line with brackets beside names. -/
def pathLine : List Char := "get($self, key: os.PathLike[, *rest, value: int=0]) -> str".toList

def pathOverload : Overload :=
  ⟨[{ name := "self" }, { name := "key", type := some ⟨"os", "PathLike"⟩ },
    { name := "rest", variadic := some .positional },
    { name := "value", type := some ⟨"builtins", "int"⟩, default := some "0" }],
    ⟨"builtins", "str"⟩⟩

theorem names_spelled_in_line_path :
    parseLine "builtins" ⟨"builtins", "object"⟩ pathLine = some pathOverload ∧
      { name := "key", type := some ⟨"os", "PathLike"⟩ } ∈ pathOverload.params ∧
      Unbroken pathLine ∧ MaximalRun isWord "key".toList pathLine ∧
      ∃ text, ⟨"os", "PathLike"⟩ = resolveChars "builtins" text ∧
        MaximalRun isDottedWord text pathLine := by
  have hparse : parseLine "builtins" ⟨"builtins", "object"⟩ pathLine = some pathOverload := by
    decide +kernel
  have hmem : { name := "key", type := some ⟨"os", "PathLike"⟩ } ∈ pathOverload.params := by
    simp [pathOverload]
  have hline : Unbroken pathLine := by decide +kernel
  obtain ⟨hname, htype⟩ := (names_spelled_in_line hparse hmem).2 hline
  exact ⟨hparse, hmem, hline, hname, htype _ rfl⟩

/-- A line with brackets between two characters of a name and of a type. -/
def subscriptLine : List Char := "get(key[index], value: list[int])".toList

/-- A name and a type are put together from both sides of a bracket. -/
theorem name_not_spelled :
    ∃ o, parseLine "builtins" ⟨"builtins", "object"⟩ subscriptLine = some o ∧
      { name := "keyindex" } ∈ o.params ∧
      { name := "value", type := some ⟨"builtins", "listint"⟩ } ∈ o.params ∧
      ¬ MaximalRun isWord "keyindex".toList subscriptLine := by
  have hparse : parseLine "builtins" ⟨"builtins", "object"⟩ subscriptLine = some
      ⟨[{ name := "keyindex" }, { name := "value", type := some ⟨"builtins", "listint"⟩ }],
        ⟨"builtins", "object"⟩⟩ := by decide +kernel
  have hinfix : ¬ "keyindex".toList <:+: subscriptLine := by decide +kernel
  exact ⟨_, hparse, by simp, by simp, fun hrun => hinfix hrun.isInfix⟩

end Signature
end CompletionDb
