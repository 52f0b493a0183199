/-
# Compilation -- compiled text and what was wrong on the way

The artifact of a compilation is the text that is kept and rendered: the output,
followed by a list of the diagnostics if there are any.  The list stands in a
raw region of the rendering language, so rendering prints it as it is.
-/
import TagTemplate.Diagnostic

namespace TagTemplate

set_option autoImplicit false

open Text

/-- The output of compiling a template, and the faults found in it. -/
structure Compilation where
  output : Text
  diagnostics : List Diagnostic
  deriving DecidableEq, Repr

namespace Compilation

def hasErrors (c : Compilation) : Bool := !c.diagnostics.isEmpty

def note (c : Compilation) : Text :=
  "<!-- tagtpl: ".toList ++ decimal c.diagnostics.length ++ " template error(s)\n".toList
    ++ c.diagnostics.flatMap (fun d => d.line ++ ['\n']) ++ "-->".toList

def artifact (c : Compilation) : Text :=
  if c.hasErrors then
    c.output ++ "\n\x7b% raw %\x7d".toList ++ c.note ++ "\x7b% endraw %\x7d\n".toList
  else c.output

end Compilation

end TagTemplate
