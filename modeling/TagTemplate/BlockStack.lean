/-
# BlockStack -- the bodies of named blocks

For each block name the stack keeps the bodies that the files of an extends
chain give it, in the order the files are visited, so the most concrete comes
first.  A body is the list of its nodes until it is compiled, and its text from
then on.

The cursor of a name is the position of the next body to use: zero outside of
that block, one further in for each of its bodies being compiled.
-/
import TagTemplate.Tree

namespace TagTemplate

set_option autoImplicit false

inductive Body where
  /-- The nodes of a body that is not compiled yet. -/
  | pending (nodes : List NodeId)
  /-- The text of a compiled body. -/
  | compiled (output : Text)
  deriving DecidableEq, Repr

def Body.isPending : Body → Bool
  | .pending _ => true
  | .compiled _ => false

/-- What is kept of a body once it is compiled. -/
inductive Retention where
  /-- Its text, so that it is compiled only once. -/
  | text
  /-- Its nodes, so that it is compiled again each time. -/
  | nodes
  deriving DecidableEq, Repr

/-- What stands in the place of a body with these nodes once they are compiled to a text. -/
def Retention.body : Retention → List NodeId → Text → Body
  | .text, _, output => .compiled output
  | .nodes, ids, _ => .pending ids

/-- The bodies of one name, and the position of the next one to use. -/
structure Slot where
  cursor : Nat := 0
  bodies : List Body := []
  deriving DecidableEq, Repr, Inhabited

structure BlockStack where
  slots : List (Text × Slot) := []
  deriving DecidableEq, Repr, Inhabited

namespace BlockStack

/-- The slot of a name; a name without bodies has an empty one. -/
def slot (s : BlockStack) (name : Text) : Slot :=
  ((s.slots.find? fun p => p.1 == name).map (·.2)).getD {}

def modifySlot (name : Text) (f : Slot → Slot) : List (Text × Slot) → List (Text × Slot)
  | [] => [(name, f {})]
  | p :: ps => if p.1 = name then (name, f p.2) :: ps else p :: modifySlot name f ps

def modify (s : BlockStack) (name : Text) (f : Slot → Slot) : BlockStack := ⟨modifySlot name f s.slots⟩

/-- The number of bodies of a name. -/
def depth (s : BlockStack) (name : Text) : Nat := (s.slot name).bodies.length

def push (s : BlockStack) (name : Text) (nodes : List NodeId) : BlockStack :=
  s.modify name fun slot => { slot with bodies := slot.bodies ++ [.pending nodes] }

/-- Start on the body at a position: nothing stands in its place and the cursor moves in. -/
def enter (s : BlockStack) (name : Text) (position : Nat) : BlockStack :=
  s.modify name fun slot => ⟨slot.cursor + 1, slot.bodies.set position (.compiled [])⟩

/-- Finish the body at a position: what is kept of it stands there and the cursor moves back. -/
def leave (s : BlockStack) (name : Text) (position : Nat) (body : Body) : BlockStack :=
  s.modify name fun slot => ⟨slot.cursor - 1, slot.bodies.set position body⟩

def pendingCount (s : BlockStack) : Nat :=
  (s.slots.flatMap fun p => p.2.bodies).countP (·.isPending)

end BlockStack

end TagTemplate
