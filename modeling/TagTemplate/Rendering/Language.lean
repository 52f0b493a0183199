/-
# Rendering.Language -- languages that compiled text is rendered in

A `Grammar` says what stands at an opening delimiter: a piece, which may be a lookup, a
comment, or a whole statement with all that belongs to it.  Everything else is literal
text.  `Grammar.parse?` cuts a compiled text into pieces, from left to right, in full or
not at all.

A `Language` says what the pieces do.  They are printed one after the other, and a memory
goes from each to the next: variables, blocks, or that another template is extended, which
then is printed in the end, in the place of the text that follows (`discards`, `finish`).
Included templates are printed in the same way, `maxNesting` deep.
-/
import TagTemplate.Rendering.Delimiter
import TagTemplate.Rendering.Script

namespace TagTemplate

set_option autoImplicit false

open Text

/-- How compiled text is cut into pieces. -/
structure Grammar (P : Type) where
  literal : Text → P
  /-- What the opening delimiter at this place begins, whether the white space after it is removed, and
  the text after it. -/
  special? : Text → Option (P × Bool × Text)

namespace Grammar

open Piece (opens untilOpener removesBefore)

variable {P : Type} (g : Grammar P)

/-- The pieces of a text, at most `count` of them; `removes` says whether leading white space is
removed. -/
def parseUpTo? : Nat → Bool → Text → Option (List P)
  | count, removes, t =>
    match if removes then t.dropWhile isSpace else t, count with
    | [], _ => some []
    | _, 0 => none
    | t, count + 1 =>
      if opens t then
        match g.special? t with
        | some (p, removes, rest) => (parseUpTo? count removes rest).map (p :: ·)
        | none => none
      else
        let (lead, rest) := untilOpener t
        let lead := if removesBefore rest then trimEnd lead else lead
        (parseUpTo? count false rest).map (g.literal lead :: ·)

def parse? (t : Text) : Option (List P) := g.parseUpTo? t.length false t

end Grammar

/-- A language that compiled text is rendered in. -/
structure Language where
  Part : Type
  Memory : Type
  grammar : Grammar Part
  /-- The memory that a template starts with, and one that is included. -/
  start : (name : Text) → List Part → Value → Memory
  enter : (name : Text) → List Part → Memory → Memory
  /-- Print a piece; `put` prints a template that is included. -/
  print : (put : Text → Text → Memory → Script Text) → Part → Memory → Script (Text × Memory)
  /-- Whether literal text is no longer printed, because another template is extended. -/
  discards : Memory → Bool
  finish : (put : Text → Text → Memory → Script Text) → Memory → Script Text
  maxNesting : Nat

namespace Language

variable (L : Language)

def printAll (put : Text → Text → L.Memory → Script Text) :
    List L.Part → L.Memory → Script (Text × L.Memory)
  | [], m => return ([], m)
  | p :: ps, m => do
    let (text, m) ← L.print put p m
    let (rest, m) ← printAll put ps m
    return (text ++ rest, m)

/-- Print the pieces of a template, and what it extends; the result also says whether it does. -/
def printTemplate (put : Text → Text → L.Memory → Script Text) (ps : List L.Part) (m : L.Memory) :
    Script (Text × Bool) := do
  let (text, m) ← L.printAll put ps m
  let rest ← L.finish put m
  return (text ++ rest, L.discards m)

/-- Print an included template, with includes at most `nesting` deep. -/
def put : (nesting : Nat) → (name compiled : Text) → L.Memory → Script Text
  | 0, _, _, _ => .fails
  | nesting + 1, name, compiled, m =>
    match L.grammar.parse? compiled with
    | none => .fails
    | some ps => Prod.fst <$> L.printTemplate (put nesting) ps (L.enter name ps m)

def perform (name compiled : Text) (context : Value) : Script (Text × Bool) :=
  match L.grammar.parse? compiled with
  | none => .fails
  | some ps => L.printTemplate (L.put L.maxNesting) ps (L.start name ps context)

def renderer : Renderer := fun name compiled context => Prod.fst <$> L.perform name compiled context

end Language

end TagTemplate
