/-
# Position -- lines and columns of byte offsets

A position counts lines and columns from one: lines by the line feeds before the
offset, columns by the characters since the last of them.  An offset beyond the
end, or inside a character, has the position of the end (`before`).
-/
import TagTemplate.Text

namespace TagTemplate

set_option autoImplicit false

open Text

/-- A line and a column, both counted from one. -/
structure Position where
  line : Nat
  column : Nat
  deriving DecidableEq, Repr

namespace Position

/-- The text before an offset; all of it when no character ends there. -/
def before (source : Text) (offset : Nat) : Text := (upTo? offset source).getD source

def lastLine (t : Text) : Text := (t.reverse.takeWhile (· != '\n')).reverse

def ofOffset (source : Text) (offset : Nat) : Position :=
  let before := before source offset
  ⟨before.count '\n' + 1, (lastLine before).length + 1⟩

end Position

end TagTemplate
