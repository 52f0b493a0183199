/-
# Token -- a prepared source as text and tags

`lexemes` cuts a source into tags and the text between them: at every place it
takes the tag that starts there, and otherwise one character of text.  Each
lexeme keeps the slice of the source it was read from, so the lexemes of a
source are a partition of it.

`tokenize` places the lexemes at their byte offsets and applies the strip
modifiers (`settle`): a text behind a tag with `~` before its terminator loses
its leading blanks and one line break, then a text in front of a tag with `~`
after its opener loses its trailing blanks.  Spans are those of the source
before anything was removed.
-/
import TagTemplate.Tag

namespace TagTemplate

set_option autoImplicit false

open Text

inductive Fragment where
  | text (t : Text)
  | tag (t : Tag)
  deriving DecidableEq, Repr

/-- A fragment of a source and the slice it was read from. -/
structure Lexeme where
  fragment : Fragment
  slice : Text
  deriving DecidableEq, Repr

/-- A fragment of a source with the byte span it was read from. -/
structure Token where
  fragment : Fragment
  start : Nat
  stop : Nat
  deriving DecidableEq, Repr

namespace Token

/-! ## Cutting -/

/-- Put one character of text in front of the lexemes that follow it. -/
def consChar (c : Char) : List Lexeme → List Lexeme
  | ⟨.text t, slice⟩ :: ls => ⟨.text (c :: t), c :: slice⟩ :: ls
  | ls => ⟨.text [c], [c]⟩ :: ls

/-- Cut a source into tags and the text between them. -/
def lexemes (t : Text) : List Lexeme :=
  match h : Tag.scan? t with
  | some (tag, rest) =>
    have := Tag.length_of_scan? h
    ⟨.tag tag, t.take (t.length - rest.length)⟩ :: lexemes rest
  | none =>
    match t with
    | [] => []
    | c :: t => consChar c (lexemes t)
termination_by t.length

def place (offset : Nat) : List Lexeme → List Token
  | [] => []
  | l :: ls => ⟨l.fragment, offset, offset + size l.slice⟩ :: place (offset + size l.slice) ls

/-! ## Strip modifiers -/

def dropBlankLead (t : Text) : Text :=
  match t.dropWhile isBlank with
  | '\r' :: '\n' :: rest => rest
  | '\n' :: rest => rest
  | rest => rest

def stripsBefore : List Token → Bool
  | ⟨.tag tag, _, _⟩ :: _ => tag.stripBefore
  | _ => false

/-- Apply the strip modifiers; `stripped` says whether the token before strips what follows. -/
def settle (stripped : Bool) : List Token → List Token
  | [] => []
  | ⟨.tag tag, a, b⟩ :: ts => ⟨.tag tag, a, b⟩ :: settle tag.stripAfter ts
  | ⟨.text t, a, b⟩ :: ts =>
    let t := if stripped then dropBlankLead t else t
    let t := if stripsBefore ts then dropEndWhile isBlank t else t
    ⟨.text t, a, b⟩ :: settle false ts

def tokenize (source : Text) : List Token := settle false (place 0 (lexemes source))

end Token

end TagTemplate
