/-
# CommandLine.Report -- notices in full

A notice about an error or a fault has a code; in full it also says what is
wrong and what to do about it.
-/
import TagTemplate.CommandLine.Run

namespace TagTemplate.CommandLine

set_option autoImplicit false

def report (code message : Text) (help : Option Text) : Text :=
  code ++ "\n  ".toList ++ message
    ++ match help with
      | some h => "\n  help: ".toList ++ h
      | none => []

def Notice.full (color : Bool) (n : Notice) : Text :=
  match n with
  | .failure e => report e.code e.message e.help?
  | .fault d => report d.code d.line (some d.help)
  | n => n.line color

end TagTemplate.CommandLine
