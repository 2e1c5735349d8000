/-!
# Balanced parentheses

A signature line names a callable and then lists its parameters between parentheses. Parentheses
nest, and those inside quoted strings do not count. A string ends at the next quote character equal
to the one that opened it; there are no escapes.
-/
namespace CompletionDb.Signature

def isQuote (c : Char) : Bool := c == '\x27' || c == '"'

/-- The quote that is open after one more character, given the one that was open before. -/
def quoteAfter (quote : Option Char) (c : Char) : Option Char :=
  match quote with
  | some q => if c = q then none else some q
  | none => if isQuote c then some c else none

/-- Read up to the parenthesis that closes the list, with `depth` further parentheses open inside
it and `taken` the characters read so far, last first. -/
def balancedFrom (depth : Nat) (quote : Option Char) (taken : List Char) :
    List Char → Option (List Char × List Char)
  | [] => none
  | c :: cs =>
    if quote.isSome || isQuote c then balancedFrom depth (quoteAfter quote c) (c :: taken) cs
    else if c = '(' then balancedFrom (depth + 1) none (c :: taken) cs
    else if c = ')' then
      match depth with
      | 0 => some (taken.reverse, cs)
      | depth + 1 => balancedFrom depth none (c :: taken) cs
    else balancedFrom depth none (c :: taken) cs

/-- Read a parenthesised list: the text between the outer parentheses and what follows them. -/
def balanced : List Char → Option (List Char × List Char)
  | [] => none
  | c :: cs => if c = '(' then balancedFrom 0 none [] cs else none

end CompletionDb.Signature
