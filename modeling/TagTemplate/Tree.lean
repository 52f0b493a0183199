/-
# Tree -- the nodes of one compilation

Nodes live in an arena and are named by their index.  Several roots may share an
arena, one for each file of an extends chain.  A node is added below a node that
is already there, so a parent always has the smaller index; `ancestors` relies
on this and nothing else to end.
-/
import TagTemplate.Attributes

namespace TagTemplate

set_option autoImplicit false

abbrev NodeId := Nat

/-- What became of a block while its tree was built. -/
inductive BlockState where
  /-- Opened, and still waiting for its closing tag. -/
  | opened
  /-- Closed by a matching closing tag. -/
  | closed
  /-- Given up because a closing tag of an ancestor came first. -/
  | abandoned
  deriving DecidableEq, Repr

/-- The tag that defines a block that other templates may override. -/
def definitionTag : Text := "Block".toList

def extendsTag : Text := "extends".toList

/-- The tag that stands for the body this one overrides. -/
def parentTag : Text := "parent".toList

inductive NodeKind where
  | root
  | text (t : Text)
  | value (tag : Text) (attributes : Attributes) (raw : Text)
  /-- The place of the body that the current one overrides. -/
  | parentValue
  | block (tag : Text) (attributes : Attributes) (state : BlockState)
  /-- A named region that other templates may override. -/
  | definition (name : Text) (attributes : Attributes) (state : BlockState)
  deriving DecidableEq, Repr

namespace NodeKind

def tag? : NodeKind → Option Text
  | .block tag _ _ => some tag
  | .definition .. => some definitionTag
  | _ => none

def state? : NodeKind → Option BlockState
  | .block _ _ s | .definition _ _ s => some s
  | _ => none

def withState (s : BlockState) : NodeKind → NodeKind
  | .block tag attributes _ => .block tag attributes s
  | .definition name attributes _ => .definition name attributes s
  | k => k

end NodeKind

structure Node where
  kind : NodeKind
  parent : Option NodeId
  children : List NodeId
  /-- The byte offset of the token that made the node. -/
  offset : Nat
  deriving DecidableEq, Repr

structure Tree where
  nodes : Array Node := #[]
  deriving DecidableEq, Repr

namespace Tree

/-- The number of nodes. -/
def size (t : Tree) : Nat := t.nodes.size

def node? (t : Tree) (id : NodeId) : Option Node := t.nodes[id]?

def kind? (t : Tree) (id : NodeId) : Option NodeKind := (t.node? id).map (·.kind)

def parent? (t : Tree) (id : NodeId) : Option NodeId := (t.node? id).bind (·.parent)

def children (t : Tree) (id : NodeId) : List NodeId := ((t.node? id).map (·.children)).getD []

def tag? (t : Tree) (id : NodeId) : Option Text := (t.kind? id).bind (·.tag?)

def modify (t : Tree) (id : NodeId) (f : Node → Node) : Tree := ⟨t.nodes.modify id f⟩

/-- Add a root; its index is the size of the arena. -/
def addRoot (t : Tree) : Tree := ⟨t.nodes.push ⟨.root, none, [], 0⟩⟩

/-- Add a node as the last child of another; its index is the size of the arena. -/
def append (t : Tree) (parent : NodeId) (kind : NodeKind) (offset : Nat) : Tree :=
  modify ⟨t.nodes.push ⟨kind, some parent, [], offset⟩⟩ parent fun n =>
    { n with children := n.children ++ [t.size] }

/-- Put a block into a state; other nodes have none. -/
def setState (t : Tree) (id : NodeId) (s : BlockState) : Tree :=
  t.modify id fun n => { n with kind := n.kind.withState s }

/-- Leave a node without children; they stay in the arena. -/
def clearChildren (t : Tree) (id : NodeId) : Tree := t.modify id fun n => { n with children := [] }

def ancestors (t : Tree) (id : NodeId) : List NodeId :=
  match t.parent? id with
  | some p => if p < id then p :: ancestors t p else []
  | none => []
termination_by id

end Tree

end TagTemplate
