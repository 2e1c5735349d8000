import CompletionDb.Signature.Balanced
import CompletionDb.Text.Blank

/-!
# Pieces of a parameter list

A parameter list is cut at its outer commas. Square brackets around a piece mark it as optional and
are dropped, as in `width[, fillchar]`; after an equals sign brackets and braces belong to the
default value and are kept. A piece is optional when a group was open at the comma before it, or
when a group opens before anything else of the piece has been read.
-/
namespace CompletionDb.Signature

/-- One parameter as written, and whether it stands in an optional group. -/
structure Piece where
  text : List Char
  optional : Bool
  deriving DecidableEq, Repr

/-- A parameter list read up to some point. -/
structure Cut where
  /-- Finished pieces, last first. -/
  pieces : List Piece := []
  /-- Characters of the piece being read, last first. -/
  current : List Char := []
  groups : Nat := 0
  optional : Bool := false
  /-- Open parentheses, and open brackets and braces of a default value. -/
  nest : Nat := 0
  inDefault : Bool := false
  quote : Option Char := none
  deriving DecidableEq, Repr

namespace Cut

def keep (s : Cut) (c : Char) : Cut := { s with current := c :: s.current }

/-- Finish the piece being read. Blank pieces are dropped. -/
def close (s : Cut) : List Piece :=
  let text := Text.trim s.current.reverse
  if text.isEmpty then s.pieces else ⟨text, s.optional⟩ :: s.pieces

def step (s : Cut) (c : Char) : Cut :=
  if s.quote.isSome || isQuote c then { s.keep c with quote := quoteAfter s.quote c }
  else if c = '=' ∧ s.nest = 0 then { s.keep c with inDefault := true }
  -- Brackets and braces of a default value belong to it; other brackets mark groups.
  else if (c = '[' ∨ c = '\x7b') ∧ s.inDefault then { s.keep c with nest := s.nest + 1 }
  else if (c = ']' ∨ c = '\x7d') ∧ 0 < s.nest then { s.keep c with nest := s.nest - 1 }
  else if c = '[' then
    { s with
      groups := s.groups + 1
      optional := s.optional || Text.isAllBlank s.current }
  else if c = ']' then { s with groups := s.groups - 1 }
  else if c = '(' then { s.keep c with nest := s.nest + 1 }
  else if c = ')' then { s.keep c with nest := s.nest - 1 }
  else if c = ',' ∧ s.nest = 0 then
    { s with
      pieces := s.close
      current := []
      inDefault := false
      optional := 0 < s.groups }
  else s.keep c

end Cut

def pieces (params : List Char) : List Piece := (params.foldl Cut.step {}).close.reverse

end CompletionDb.Signature
