/-
# Handler.Recipe -- handlers given as data

A recipe lists the parts that a handler puts together: literal text, an
attribute, the name, content or attributes of the tag, or how often the handler
has been called.  The state of such handlers is the number of calls of each of
them (`Calls`).
-/
import TagTemplate.Handler

namespace TagTemplate

set_option autoImplicit false

open Text

/-- A part of what a handler puts together. -/
inductive Part where
  | literal (t : Text)
  /-- The value of an attribute, or a text in its place. -/
  | attribute (key fallback : Text)
  /-- The name of the tag. -/
  | tag
  /-- The content of a block, or the raw attributes of a value. -/
  | body
  /-- The attributes, as `key=value`. -/
  | attributes
  /-- How often this handler has been called. -/
  | count
  deriving DecidableEq, Repr

/-- How often each handler has been called; handlers are named by number. -/
abbrev Calls := List (Nat × Nat)

def Calls.of (calls : Calls) (id : Nat) : Nat := ((calls.find? fun c => c.1 == id).map (·.2)).getD 0

def Calls.add (calls : Calls) (id : Nat) : Calls :=
  (id, calls.of id + 1) :: calls.filter fun c => c.1 != id

/-- A handler given by its parts. -/
structure Recipe where
  /-- The number this handler is counted under. -/
  id : Nat
  parts : List Part
  deriving DecidableEq, Repr

namespace Recipe

def partText (tag : Text) (a : Attributes) (body : Text) (calls : Nat) : Part → Text
  | .literal t => t
  | .attribute key fallback => (a.get? key).getD fallback
  | .tag => tag
  | .body => body
  | .attributes => joinWith [','] (a.pairs.map fun p => p.1 ++ '=' :: p.2)
  | .count => decimal calls

def fallback (r : Recipe) : Fallback Calls := fun tag a body => do
  modify (·.add r.id)
  return r.parts.flatMap (partText tag a body ((← get).of r.id))

def handler (r : Recipe) (tag : Text) : Handler Calls := r.fallback tag

end Recipe

inductive Role where
  | block (name : Text)
  | value (name : Text)
  | unknownBlock
  | unknownValue
  deriving DecidableEq, Repr

def Registry.register (reg : Registry Calls) (role : Role) (r : Recipe) : Registry Calls :=
  match role with
  | .block name => reg.registerBlock name (r.handler name)
  | .value name => reg.registerValue name (r.handler name)
  | .unknownBlock => { reg with unknownBlock := some r.fallback }
  | .unknownValue => { reg with unknownValue := some r.fallback }

end TagTemplate
