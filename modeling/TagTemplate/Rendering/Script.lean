/-
# Rendering.Script -- what a renderer does, seen from outside

The renderer is not part of this library.  Whatever its language is, it comes by templates
in one way only: it asks for a name, and is told the compiled text, that there is no such
template, or that there was an error (`Loading`).  So rendering is a `Script`.  It asks for
one name after the other, each depending on the answers before, and in the end it has a
result or fails.  No script goes on forever.
-/
import TagTemplate.Value

namespace TagTemplate

set_option autoImplicit false

/-- What is said when a template is asked for. -/
inductive Loading where
  | found (compiled : Text)
  | missing
  | failed
  deriving DecidableEq, Repr

/-- A computation that asks for templates. -/
inductive Script (α : Type) where
  | done (a : α)
  | fails
  | load (name : Text) (next : Loading → Script α)

namespace Script

variable {α β : Type}

def bind : Script α → (α → Script β) → Script β
  | done a, f => f a
  | fails, _ => fails
  | load name next, f => load name fun answer => (next answer).bind f

instance : Monad Script where
  pure := done
  bind := bind

/-- The first template that exists among some names; none stands for what is no name. -/
def first? : List (Option Text) → Script (Option (Text × Text))
  | [] => done none
  | none :: _ => fails
  | some name :: names => load name fun
    | .found compiled => done (some (name, compiled))
    | .missing => first? names
    | .failed => fails

/-- Include the first template that exists.  If there is none, that is an error unless the include is
optional. -/
def includes (optional : Bool) (names : List (Option Text)) (put : Text → Text → Script Text) : Script Text := do
  match ← first? names with
  | some (name, compiled) => put name compiled
  | none => if optional ∨ names.isEmpty then return [] else fails

end Script

/-- How compiled text that goes by a name is rendered. -/
abbrev Renderer := (name compiled : Text) → (context : Value) → Script Text

end TagTemplate
