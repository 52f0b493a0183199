/-
# Source.HostSnippet -- regions of the rendering language inside a source

A source may hold regions written for the renderer: `{{ ... }}`, `{% ... %}` and
`{# ... #}`.  When they are to be stripped, `stripSnippets` finds them left to
right (`close?`): a region opens with one of the three openers and ends at the
first closer of *any* of the three kinds.

What becomes of a region is decided by `Snippet.replacement`.  A region whose
closer is of another kind than its opener, or that is one of the template's own
value tags, is left as it is.  A comment, or a body that starts with white space
or a trim mark, is a directive and is removed.  Anything else is a literal: it
is kept, wrapped so that the renderer prints it, or removed as well, as the
policy says.
-/
import TagTemplate.Text

namespace TagTemplate.Source

set_option autoImplicit false

open Text

/-- A region of the rendering language: its two delimiter characters and what is between. -/
structure Snippet where
  opener : Char
  body : Text
  closer : Char
  deriving DecidableEq, Repr

def isOpenerMark (c : Char) : Bool := c == '{' || c == '%' || c == '#'

def isCloserMark (c : Char) : Bool := c == '}' || c == '%' || c == '#'

def matchingMark (c : Char) : Char := if c == '{' then '}' else c

def close? : Text → Option (Text × Char × Text)
  | a :: b :: t =>
    if isCloserMark a && b == '}' then some ([], a, t)
    else (close? (b :: t)).map fun p => (a :: p.1, p.2)
  | _ => none

namespace Snippet

def written (s : Snippet) : Text := '{' :: s.opener :: s.body ++ [s.closer, '}']

/-- A region that the policy does not touch: mismatched delimiters, or the template's own tag. -/
def isForeign (s : Snippet) : Bool :=
  s.closer != matchingMark s.opener || "tpl:".toList.isPrefixOf s.body
    || "~tpl:".toList.isPrefixOf s.body

/-- A comment, or a region whose body starts with white space or a trim mark. -/
def isDirective (s : Snippet) : Bool :=
  s.opener == '#' || startsWith (fun c => isSpace c || c == '-' || c == '+') s.body

def replacement (passLiterals : Bool) (s : Snippet) : Text :=
  if s.isForeign then s.written
  else if s.isDirective || !passLiterals then []
  else "\x7b% raw %\x7d".toList ++ s.written ++ "\x7b% endraw %\x7d".toList

end Snippet

theorem length_of_close? {t body rest : Text} {c : Char} (h : close? t = some (body, c, rest)) :
    rest.length + 2 ≤ t.length := by
  induction t generalizing body with
  | nil => simp [close?] at h
  | cons a t ih =>
    cases t with
    | nil => simp [close?] at h
    | cons b t =>
      unfold close? at h
      split at h
      · simp only [Option.some.injEq, Prod.mk.injEq] at h
        obtain ⟨-, -, rfl⟩ := h
        simp
      · obtain ⟨⟨x, y, z⟩, hp, e⟩ := Option.map_eq_some_iff.mp h
        simp only [Prod.mk.injEq] at e
        obtain ⟨-, rfl, rfl⟩ := e
        have := ih hp
        simp only [List.length_cons] at this ⊢; omega

/-- The region that starts at this place, and the text after it. -/
def snippet? : Text → Option (Snippet × Text)
  | '{' :: m :: t =>
    if isOpenerMark m then (close? t).map fun p => (⟨m, p.1, p.2.1⟩, p.2.2) else none
  | _ => none

theorem length_of_snippet? {t rest : Text} {s : Snippet} (h : snippet? t = some (s, rest)) :
    rest.length < t.length := by
  unfold snippet? at h
  split at h
  · split at h
    · obtain ⟨⟨x, y, z⟩, hp, e⟩ := Option.map_eq_some_iff.mp h
      simp only [Prod.mk.injEq] at e
      obtain ⟨-, rfl⟩ := e
      have := length_of_close? hp
      simp only [List.length_cons]; omega
    · simp at h
  · simp at h

/-- Replace every region of the rendering language, left to right. -/
def stripSnippets (passLiterals : Bool) (t : Text) : Text :=
  match h : snippet? t with
  | some (s, rest) =>
    have := length_of_snippet? h
    s.replacement passLiterals ++ stripSnippets passLiterals rest
  | none =>
    match t with
    | [] => []
    | c :: t => c :: stripSnippets passLiterals t
termination_by t.length

end TagTemplate.Source
