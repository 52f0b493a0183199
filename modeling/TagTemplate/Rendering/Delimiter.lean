/-
# Rendering.Delimiter -- delimiters in compiled text

Whatever the rest of the language is, what is not literal text stands between delimiters:
`{{ ... }}`, `{% ... %}` and `{# ... #}`.  What stands between `{% raw %}` and the first
`{% endraw %}` is literal text.

A delimiter may have a sign on its inner side.  A minus removes the white space on the
outer side, as far as it is literal text; a plus does nothing.  The signs on the inner
delimiters of a raw region act on what it holds.
-/
import TagTemplate.Rendering.Expression

namespace TagTemplate.Piece

set_option autoImplicit false

open Text
open Expression (skip)

def opens : Text → Bool
  | '{' :: c :: _ => c == '{' || c == '%' || c == '#'
  | _ => false

/-- Whether the white space before an opening delimiter is removed. -/
def removesBefore (t : Text) : Bool := opens t && startsWith (· == '-') (t.drop 2)

def afterOpener (t : Text) : Text :=
  match t.drop 2 with
  | '-' :: rest => rest
  | '+' :: rest => rest
  | rest => rest

def untilOpener : Text → Text × Text
  | [] => ([], [])
  | c :: t =>
    if opens (c :: t) then ([], c :: t)
    else
      let (lead, rest) := untilOpener t
      (c :: lead, rest)

/-- Whether the white space after the closing delimiter at this place is removed, and what follows it. -/
def close? (delimiter : Text) : Text → Option (Bool × Text)
  | '-' :: t => (dropLead? delimiter t).map (true, ·)
  | '+' :: t => (dropLead? delimiter t).map (false, ·)
  | t => (dropLead? delimiter t).map (false, ·)

def statementEnd? (t : Text) : Option (Bool × Text) := close? ['%', '}'] (skip t)

def bareStatement? (word t : Text) : Option (Bool × Text) := do
  let t ← dropLead? word (skip t)
  statementEnd? t

/-- The end of the `endraw` statement at this place. -/
def endraw? : Text → Option (Bool × Text)
  | '{' :: '%' :: t => bareStatement? "endraw".toList (afterOpener ('{' :: '%' :: t))
  | _ => none

/-- The text before the first `endraw` statement, and the text from there on. -/
def untilEndraw? : Text → Option (Text × Text)
  | [] => none
  | c :: t =>
    if (endraw? (c :: t)).isSome then some ([], c :: t)
    else (untilEndraw? t).map fun p => (c :: p.1, p.2)

end TagTemplate.Piece
