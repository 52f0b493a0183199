/-
# Rendering -- a language of lookups and includes

Here compiled text holds expressions such as `{{ a.b.c }}` and `{% include "name" %}`
statements.  A `{# comment #}` leaves nothing behind, and so does everything else but the
text in a raw region.  There are no other statements.

An include may say `ignore missing`, and then prints nothing if there is no such
template.  It may also say `with context` or `without context`, to no effect.

The memory is the context alone.  Includes may be nested 49 deep, so a template that
includes itself ends with an error.
-/
import TagTemplate.Rendering.Language

namespace TagTemplate

set_option autoImplicit false

open Text

inductive Piece where
  | text (t : Text)
  /-- Print the value of an expression. -/
  | print (e : Expression)
  /-- Put in the first template that exists among those an expression names; if there is none, that
  is an error unless the include is optional. -/
  | includes (e : Expression) (optional : Bool)
  deriving Repr

namespace Piece

open Expression (skip name?)

/-- A piece, whether the white space after it is removed, and the text after it. -/
abbrev Reading := Piece × Bool × Text

/-! ## Reading -/

def print? (t : Text) : Option Reading := do
  let (e, t) ← Expression.read? t
  let (removes, t) ← close? ['}', '}'] t
  return (.print e, removes, t)

/-- Whether one of the words `first` stands here, and what follows it and the word `second`; none if
the second is missing. -/
def words? (first : List Text) (second : Text) (t : Text) : Option (Bool × Text) :=
  match name? (skip t) with
  | none => some (false, t)
  | some (word, rest) =>
    if first.contains word then do
      let (word, rest) ← name? (skip rest)
      if word = second then some (true, rest) else none
    else some (false, t)

def context? (t : Text) : Option Text :=
  (words? ["with".toList, "without".toList] "context".toList t).map (·.2)

def optional? (t : Text) : Option (Bool × Text) := do
  let (optional, t) ← words? ["ignore".toList] "missing".toList (← context? t)
  if optional then (context? t).map (true, ·) else some (false, t)

def include? (t : Text) : Option Reading := do
  let (word, t) ← name? (skip t)
  if word = "include".toList then
    let (e, t) ← Expression.read? t
    let (optional, t) ← optional? t
    let (removes, t) ← statementEnd? t
    return (.includes e optional, removes, t)
  else none

def raw? (t : Text) : Option Reading := do
  let (removesStart, t) ← bareStatement? "raw".toList t
  let (body, t) ← untilEndraw? t
  let (removes, rest) ← endraw? t
  let body := if removesStart then body.dropWhile isSpace else body
  let body := if removesBefore t then trimEnd body else body
  return (.text body, removes, rest)

def comment? (t : Text) : Option Reading :=
  (cut? ['#', '}'] t).map fun p => (.text [], p.1.getLast? == some '-', p.2)

def special? : Text → Option Reading
  | '{' :: '{' :: t => print? (afterOpener ('{' :: '{' :: t))
  | '{' :: '%' :: t =>
    let inner := afterOpener ('{' :: '%' :: t)
    if (bareStatement? "raw".toList inner).isSome then raw? inner else include? inner
  | '{' :: '#' :: t => comment? (afterOpener ('{' :: '#' :: t))
  | _ => none

def grammar : Grammar Piece := ⟨.text, special?⟩

/-- The pieces of a compiled text, if it is well formed. -/
def parse? (t : Text) : Option (List Piece) := grammar.parse? t

/-! ## Printing -/

def printWith (put : Text → Text → Value → Script Text) (context : Value) : Piece → Script Text
  | .text t => .done t
  | .print e => .done (e.shown context)
  | .includes e optional => .includes optional (e.templates context) fun name compiled => put name compiled context

def language : Language where
  Part := Piece
  Memory := Value
  grammar := grammar
  start _ _ context := context
  enter _ _ context := context
  print put p context := (·, context) <$> printWith put context p
  discards _ := false
  finish _ _ := .done []
  maxNesting := 49

end Piece

end TagTemplate
