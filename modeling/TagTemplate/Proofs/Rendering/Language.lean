/-
# Proofs.Rendering.Language -- what is taken for granted of a renderer

Compiled text is written for MiniJinja, which is not part of this library.  What is proved
of rendering is proved for every `Language` that keeps the rules of its template language,
as far as they are used; each of them has a name here.

* `Grammar.Regular` and `Language.Regular` are the rules for a text that is put behind
  another one: where statements end, what raw regions are, and that literal text is printed
  as it stands unless another template is extended.
* `Grammar.Strict` and `Language.Strict` are those for a text that looks nothing up: what
  is no statement and no expression, and what an include statement does.

The language of lookups and includes keeps all of them (`Piece.regular_language`,
`Piece.strict_language`).
-/
import TagTemplate.Proofs.Rendering
import TagTemplate.Proofs.Source.HostSnippet

namespace TagTemplate

set_option autoImplicit false

open Text

/-! ## Marks -/

def Piece.rawLead : Text := "\x7b% raw %\x7d".toList
def Piece.rawEnd : Text := "\x7b% endraw %\x7d".toList

/-- Whether a text starts like a tag, or like one in the delimiters of a statement. -/
def Piece.isOwnTag (t : Text) : Bool :=
  "\x7b\x7btpl:".toList.isPrefixOf t || "\x7b\x7b~tpl:".toList.isPrefixOf t
    || "\x7b%tpl:".toList.isPrefixOf t || "\x7b%~tpl:".toList.isPrefixOf t

/-- Nowhere in a text stands the closing delimiter of an opening mark. -/
def Piece.Lacks (m : Char) (t : Text) : Prop := ∀ a b, t ≠ a ++ Source.matchingMark m :: '}' :: b

namespace Grammar

open Piece (opens removesBefore endraw? untilEndraw? rawLead rawEnd isOwnTag Lacks)
open Source (matchingMark isCloserMark Unclosed)

variable {P : Type}

/-- The rules for text behind a text. -/
structure Regular (g : Grammar P) : Prop where
  /-- What an opening delimiter begins does not depend on the text behind it. -/
  extent : ∀ {t rest : Text} {p : P} {removes : Bool}, g.special? t = some (p, removes, rest) →
    ∀ u, g.special? (t ++ u) = some (p, removes, rest ++ u)
  /-- It ends with the closing delimiter of its kind, which has a minus sign if it removes the white space behind. -/
  closing : ∀ {m : Char} {t rest : Text} {p : P} {removes : Bool}, g.special? ('{' :: m :: t) = some (p, removes, rest) →
    ∃ body, t = body ++ matchingMark m :: '}' :: rest ∧ (removes = true → body.getLast? = some '-')
  /-- A raw region is literal text up to the first `endraw` statement. -/
  raw : ∀ t : Text, g.special? (rawLead ++ t) = (untilEndraw? t).bind fun p => (endraw? p.2).map fun q =>
    (g.literal (if removesBefore p.2 then trimEnd p.1 else p.1), q.1, q.2)

/-- The rules for what is no statement and no expression. -/
structure Strict (g : Grammar P) : Prop extends Regular g where
  /-- A comment ends with its first closing delimiter and leaves nothing behind. -/
  comment : ∀ {body : Text}, Lacks '#' (body ++ ['#']) → ∀ rest,
    ∃ removes, g.special? ('{' :: '#' :: (body ++ '#' :: '}' :: rest)) = some (g.literal [], removes, rest)
  /-- Outside of a raw region there is no `endraw` statement. -/
  endraw : ∀ rest, g.special? (rawEnd ++ rest) = none
  /-- There is no statement `tpl`, no name has a colon behind it, and no expression starts with a tilde. -/
  tag : ∀ {t : Text}, isOwnTag t = true → ∀ rest, g.special? (t ++ rest) = none
  /-- No expression starts with a percent sign. -/
  percent : ∀ t, g.special? ('{' :: '{' :: '%' :: t) = none
  /-- The first closing delimiter is of the right kind, unless there are braces or quotation marks before it. -/
  mixed : ∀ {m k : Char} {body : Text}, m = '{' ∨ m = '%' → (∀ c ∈ body, c ≠ '{' ∧ Expression.isQuote c = false) →
    Unclosed (body ++ [k]) → isCloserMark k = true → k ≠ matchingMark m →
      ∀ rest, g.special? ('{' :: m :: (body ++ k :: '}' :: rest)) = none
  /-- No statement has an opening delimiter `{%` in it, unless there are quotation marks behind. -/
  barrier : ∀ {t u : Text}, Lacks '%' t → (∀ c ∈ u, Expression.isQuote c = false) →
    g.special? ('{' :: '%' :: (t ++ '{' :: '%' :: u)) = none

/-- The pieces `rs` are the pieces `ps` with literal text `s` behind. -/
inductive Followed (g : Grammar P) : Text → List P → List P → Prop where
  | nothing : Followed g [] [] []
  | piece (s : Text) : Followed g s [] [g.literal s]
  | longer (t s : Text) : Followed g s [g.literal t] [g.literal (t ++ s)]
  | behind (p : P) {s : Text} {ps rs : List P} (followed : Followed g s ps rs) : Followed g s (p :: ps) (p :: rs)

end Grammar

namespace Language

variable (L : Language)

/-- The rules for literal text behind other pieces. -/
structure Regular : Prop where
  grammar : L.grammar.Regular
  /-- Literal text is printed as it stands, unless another template is extended, and has no other effect. -/
  literal : ∀ put t m, L.print put (L.grammar.literal t) m = .done (if L.discards m then [] else t, m)
  /-- Nothing is put behind what is printed, unless another template is extended. -/
  finish : ∀ put {m}, L.discards m = false → L.finish put m = .done []
  /-- What a rendering starts with does not depend on literal text. -/
  start : ∀ name {s ps rs} context, L.grammar.Followed s ps rs → L.start name rs context = L.start name ps context

/-- Literal text, or an include of a constant name. -/
def Plain (inclusion : Text → L.Part) (p : L.Part) : Prop :=
  (∃ t, p = L.grammar.literal t) ∨ ∃ name, p = inclusion name

/-- The rules for a text that includes templates by constant names. -/
structure Strict (inclusion : Text → L.Part) : Prop extends Regular L where
  strict : L.grammar.Strict
  /-- A name in a statement is written as in JSON. -/
  included : ∀ name rest, L.grammar.special?
    ("\x7b% include ".toList ++ Quoted.json name ++ " %\x7d".toList ++ rest) = some (inclusion name, false, rest)
  /-- It is an error if there is no such template. -/
  inclusion : ∀ put name {m}, L.discards m = false → L.print put (inclusion name) m =
    (·, m) <$> Script.includes false [some name] fun name compiled => put name compiled m
  /-- To begin with, no template extends another one. -/
  fresh : ∀ name ps context m, L.discards (L.start name ps context) = false ∧ L.discards (L.enter name ps m) = false

end Language

end TagTemplate
