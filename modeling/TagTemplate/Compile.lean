/-
# Compile -- a tree becomes text

A node is compiled by what it is: text stands for itself, a value tag and a
closed block go to their handlers, a closed block definition stands for the
current body of its name.  The children of a block are compiled before its
handler runs; a block that was never closed compiles to nothing.

`resolve` compiles the body at the cursor of a name.  While it is being compiled
the cursor stands one further in, so `parent` tags and definitions of the same
name inside it reach the next body; afterwards its text is kept and the cursor is
back.  `active` lists the names whose bodies are being compiled, innermost
first.  The functions whose names end in `With` take what is kept of a body
(`Retention`); an engine keeps texts.

The recursion goes down the tree, where indices grow, and into bodies, of which
one fewer is pending each time; `Compiler.depth` bounds how deep that can go.
-/
import TagTemplate.BlockStack
import TagTemplate.Event
import TagTemplate.Handler

namespace TagTemplate

set_option autoImplicit false

/-- What changes while a tree is compiled. -/
structure CompileState (σ : Type) where
  /-- The state of the handlers. -/
  handlers : σ
  blocks : BlockStack
  /-- The nodes whose tags were dispatched, in order. -/
  dispatched : List NodeId := []
  events : List Event := []

/-- The tree that is compiled and the handlers it is compiled with. -/
structure Compiler (σ : Type) where
  tree : Tree
  registry : Registry σ

namespace Compiler

variable {σ : Type}

abbrev Step (σ : Type) (α : Type) := StateM (CompileState σ) α

def note (e : Event) : Step σ Unit :=
  modify fun s => { s with events := s.events ++ [e] }

def call (h : StateM σ Text) : Step σ Text := fun s =>
  let r := h s.handlers
  (r.1, { s with handlers := r.2 })

/-- Dispatch the tag of a node to its handler; without one it compiles to nothing. -/
def dispatch (id : NodeId) (h : Option (StateM σ Text)) (missing : Event) : Step σ Text := do
  modify fun s => { s with dispatched := s.dispatched ++ [id] }
  match h with
  | some h => call h
  | none => do
    note missing
    return []

def concat (compile : NodeId → Step σ Text) : List NodeId → Step σ Text
  | [] => return []
  | id :: ids => do
    let text ← compile id
    let rest ← concat compile ids
    return text ++ rest

/-- The text of the body at the cursor of a name; `compile` compiles its nodes. -/
def resolveWith (keep : Retention) (compile : List Text → NodeId → Step σ Text)
    (active : List Text) (name : Text) : Step σ Text := do
  let slot := (← get).blocks.slot name
  match slot.bodies[slot.cursor]? with
  | none => return []
  | some (.compiled output) => return output
  | some (.pending nodes) => do
    let position := slot.cursor
    modify fun s => { s with blocks := s.blocks.enter name position }
    note (.resolvingBody name position)
    let output ← concat (compile (name :: active)) nodes
    modify fun s => { s with blocks := s.blocks.leave name position (keep.body nodes output) }
    return output

/-- The text of the body one level above the one being compiled. -/
def parentWith (keep : Retention) (compile : List Text → NodeId → Step σ Text) :
    List Text → Step σ Text
  | [] => return []
  | name :: active => resolveWith keep compile (name :: active) name

/-- The text of a node, with at most `depth` nodes above each other. -/
def nodeWith (keep : Retention) (c : Compiler σ) : Nat → List Text → NodeId → Step σ Text
  | 0, _, _ => return []
  | depth + 1, active, id =>
    match c.tree.kind? id with
    | none => return []
    | some .root => concat (nodeWith keep c depth active) (c.tree.children id)
    | some (.text t) => return t
    | some (.value tag attributes raw) =>
      dispatch id ((c.registry.valueHandler? tag).map fun h => h attributes raw) (.noValueHandler tag)
    | some .parentValue => parentWith keep (nodeWith keep c depth) active
    | some (.block tag attributes .closed) => do
      let content ← concat (nodeWith keep c depth active) (c.tree.children id)
      dispatch id ((c.registry.blockHandler? tag).map fun h => h attributes content)
        (.noBlockHandler tag)
    | some (.definition name _ .closed) => resolveWith keep (nodeWith keep c depth) active name
    | some (.block ..) | some (.definition ..) => return []

/-- How many nodes can be compiled above each other. -/
def depth (c : Compiler σ) (blocks : BlockStack) : Nat :=
  (blocks.pendingCount + 1) * (c.tree.size + 1) + 1

def compileWith (keep : Retention) (c : Compiler σ) (id : NodeId) : Step σ Text := do
  nodeWith keep c (c.depth (← get).blocks) [] id

def compile (c : Compiler σ) (id : NodeId) : Step σ Text := compileWith .text c id

def resolve (c : Compiler σ) (name : Text) : Step σ Text := do
  resolveWith .text (nodeWith .text c (c.depth (← get).blocks)) [] name

/-- The text of the body above the current one: outside of all bodies there is none. -/
def parent (c : Compiler σ) : Step σ Text := do
  parentWith .text (nodeWith .text c (c.depth (← get).blocks)) []

end Compiler

end TagTemplate
