/-
# Diagnostic -- what was wrong with the nesting of a template

A template with ill-nested tags still compiles; each problem is kept as a
diagnostic that points at the tag.  There are two kinds: a block that never got
its closing tag, whose content is ignored, and a closing tag that closes
nothing.
-/
import TagTemplate.Path
import TagTemplate.Position

namespace TagTemplate

set_option autoImplicit false

open Text

/-- The two ways tags can fail to nest. -/
inductive Fault where
  /-- A block was still open when an ancestor closed or the source ended. -/
  | missingClosingTag
  /-- A closing tag matched no open block. -/
  | unexpectedClosingTag
  deriving DecidableEq, Repr

/-- A fault in the nesting of tags, and where it is. -/
structure Diagnostic where
  fault : Fault
  /-- The name of the tag. -/
  tag : Text
  /-- The file of the template, when it comes from one. -/
  file : Option Location
  position : Position
  /-- The byte offset of the tag in the prepared source. -/
  offset : Nat
  deriving DecidableEq, Repr

namespace Diagnostic

def message (d : Diagnostic) : Text :=
  match d.fault with
  | .missingClosingTag =>
    "did not find closing tag for block `<tpl:".toList ++ d.tag
      ++ ">`, its content has been ignored".toList
  | .unexpectedClosingTag => "unexpected closing tag `</tpl:".toList ++ d.tag ++ ">`".toList

def code (d : Diagnostic) : Text :=
  match d.fault with
  | .missingClosingTag => "tagtpl::missing_closing_tag".toList
  | .unexpectedClosingTag => "tagtpl::unexpected_closing_tag".toList

def help (d : Diagnostic) : Text :=
  match d.fault with
  | .missingClosingTag => "add `</tpl:".toList ++ d.tag ++ ">` before the enclosing block closes".toList
  | .unexpectedClosingTag => "remove this tag or open it with `<tpl:".toList ++ d.tag ++ ">`".toList

def label (d : Diagnostic) : Text :=
  match d.fault with
  | .missingClosingTag => "opened here".toList
  | .unexpectedClosingTag => "closes nothing".toList

def line (d : Diagnostic) : Text :=
  (match d.file with
    | some file => file.written ++ [':']
    | none => [])
    ++ decimal d.position.line ++ ':' :: decimal d.position.column ++ ": ".toList ++ d.message

end Diagnostic

end TagTemplate
