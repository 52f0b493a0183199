/-
# Path -- written paths and the locations they name

A written path is a text with `/` between its segments; nothing about it is
normalised.  A `Location` is what a path comes down to: the names from the root
down, without `.`, `..` or empty segments.  `Location.written` is its one
written form.

`join` writes a path below another one; an absolute path replaces what it is
joined to.  `ancestors` are the paths above a written one, the nearest first: each
leaves out one name more, and the slashes and dots that then stand at the end.
`isContained` holds of the names that can only lead further down: not empty, not
absolute, and without `..`.
-/
import TagTemplate.Text

namespace TagTemplate

set_option autoImplicit false

open Text

/-- The names that lead from the root of the file system to an entry. -/
abbrev Location := List Text

def Location.written : Location → Text
  | [] => ['/']
  | l => l.flatMap ('/' :: ·)

namespace Path

/-- The segments of a written path, empty ones included. -/
def segments : Text → List Text
  | [] => [[]]
  | c :: t =>
    if c = '/' then [] :: segments t
    else
      match segments t with
      | [] => [[c]]
      | s :: ss => (c :: s) :: ss

def isAbsolute : Text → Bool := startsWith (· == '/')

/-- A path below a base; an absolute path stands for itself. -/
def join (base name : Text) : Text :=
  if isAbsolute name || base.isEmpty then name
  else if base.getLast? = some '/' then base ++ name
  else base ++ '/' :: name

/-- The segments before the last name of a path, and that name; slashes at the end do not count. -/
def lastName? (path : Text) : Option (List Text × Text) :=
  match (segments path).reverse.dropWhile (·.isEmpty) with
  | [] => none
  | name :: before => some (before.reverse, name)

/-! ## Ancestors -/

/-- The root or the dot that a path starts with, and what follows it. -/
def start : Text → Text × Text
  | '/' :: t => (['/'], t)
  | ['.'] => (['.'], [])
  | '.' :: '/' :: t => (['.'], '/' :: t)
  | t => ([], t)

def isIdle (segment : Text) : Bool := segment.isEmpty || segment == ['.']

/-- The path of a start and of segments from the last to the first. -/
def assemble (start : Text) (segments : List Text) : Text :=
  start ++ joinWith ['/'] (segments.dropWhile isIdle).reverse

/-- The paths above that of a start and of segments from the last to the first. -/
def above (start : Text) : List Text → List Text
  | [] => if start = ['.'] then [[]] else []
  | s :: ss => if isIdle s then above start ss else assemble start ss :: above start ss

def ancestors (path : Text) : List Text := above (start path).1 (segments (start path).2).reverse

/-! ## Containment -/

/-- Whether a name joined to a directory can only name something below it. -/
def isContained (name : Text) : Bool :=
  !name.isEmpty && !isAbsolute name && !(segments name).contains ['.', '.']

end Path

end TagTemplate
