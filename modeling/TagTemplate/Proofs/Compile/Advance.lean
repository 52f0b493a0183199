/-
# Proofs.Compile.Advance -- what a run leaves of the block stack

A run is put together from few things: texts, steps one after the other, the tags of
nodes, and bodies.  What holds of all of these holds of every run
(`Compositional`), here for two compilers of one tree at once: a statement about a
single run does not look at the other one.

The first such statement is what a run does to a block stack (`BlockStack.Advances`).
Bodies that were still to be compiled may be compiled now, and that is all: every
cursor is back where it was, no body came or went, and a body that was compiled
already, at or behind the cursor of its name, is the same text.  Before the cursor
stand the bodies that are just being compiled, of which only their nodes are lost.
-/
import TagTemplate.Proofs.Compile.Run

namespace TagTemplate

set_option autoImplicit false

namespace Compiler

variable {σ σ' : Type}

/-! ## What runs are put together from -/

def dispatchValue (registry : Registry σ) (id : NodeId) (tag : Text) (attributes : Attributes) (raw : Text) :
    Step σ Text :=
  dispatch id ((registry.valueHandler? tag).map fun h => h attributes raw) (.noValueHandler tag)

def dispatchBlock (registry : Registry σ) (id : NodeId) (tag : Text) (attributes : Attributes) (content : Text) :
    Step σ Text :=
  dispatch id ((registry.blockHandler? tag).map fun h => h attributes content) (.noBlockHandler tag)

/-- A relation between the steps of two compilers of one tree that holds of all that their runs are put together
from. -/
structure Compositional (keep : Retention) (c : Compiler σ) (c' : Compiler σ')
    (r : Step σ Text → Step σ' Text → Prop) : Prop where
  tree : c'.tree = c.tree
  text : ∀ t, r (pure t) (pure t)
  bind : ∀ {first : Step σ Text} {first' : Step σ' Text} {next : Text → Step σ Text} {next' : Text → Step σ' Text},
    r first first' → (∀ t, r (next t) (next' t)) → r (first >>= next) (first' >>= next')
  value : ∀ id tag attributes raw, c.tree.kind? id = some (.value tag attributes raw) →
    r (dispatchValue c.registry id tag attributes raw) (dispatchValue c'.registry id tag attributes raw)
  block : ∀ id tag attributes content, c.tree.kind? id = some (.block tag attributes .closed) →
    r (dispatchBlock c.registry id tag attributes content) (dispatchBlock c'.registry id tag attributes content)
  body : ∀ {compile : List Text → NodeId → Step σ Text} {compile' : List Text → NodeId → Step σ' Text},
    (∀ active ids, r (concat (compile active) ids) (concat (compile' active) ids)) →
    ∀ active name, r (resolveWith keep compile active name) (resolveWith keep compile' active name)

/-- What is said of the steps of a single compiler. -/
def Alone (p : Step σ Text → Prop) (step _ : Step σ Text) : Prop := p step

section Runs

variable {keep : Retention} {c : Compiler σ} {c' : Compiler σ'} {r : Step σ Text → Step σ' Text → Prop}
  (parts : Compositional keep c c' r)
include parts

theorem Compositional.concat {compile : NodeId → Step σ Text} {compile' : NodeId → Step σ' Text}
    (each : ∀ id, r (compile id) (compile' id)) (ids : List NodeId) :
    r (concat compile ids) (concat compile' ids) := by
  induction ids with
  | nil => exact parts.text []
  | cons id ids ih => exact parts.bind (each id) fun text => parts.bind ih fun rest => parts.text (text ++ rest)

/-- **What holds of the parts of runs holds at every node**, at any depth. -/
theorem Compositional.node (depth : Nat) :
    ∀ active id, r (nodeWith keep c depth active id) (nodeWith keep c' depth active id) := by
  induction depth with
  | zero => exact fun _ _ => parts.text []
  | succ depth ih =>
    intro active id
    have below := parts.concat (ih active) (c.tree.children id)
    have body := parts.body fun active => parts.concat (ih active)
    unfold nodeWith
    rw [parts.tree]
    cases kind : c.tree.kind? id with
    | none => exact parts.text []
    | some k =>
      cases k with
      | root => exact below
      | text t => exact parts.text t
      | value tag attributes raw => exact parts.value id tag attributes raw kind
      | parentValue =>
        cases active with
        | nil => exact parts.text []
        | cons name active => exact body (name :: active) name
      | block tag attributes state =>
        cases state with
        | closed => exact parts.bind below fun content => parts.block id tag attributes content kind
        | opened => exact parts.text []
        | abandoned => exact parts.text []
      | definition name attributes state =>
        cases state with
        | closed => exact body active name
        | opened => exact parts.text []
        | abandoned => exact parts.text []

/-- It holds at every name. -/
theorem Compositional.name (depth : Nat) (active : List Text) (name : Text) :
    r (resolveWith keep (nodeWith keep c depth) active name) (resolveWith keep (nodeWith keep c' depth) active name) :=
  parts.body (fun active => parts.concat (parts.node depth active)) active name

end Runs

end Compiler

/-! ## Block stacks before and after -/

namespace BlockStack

/-- A block stack before and after some bodies of it were compiled. -/
structure Advances (before after : BlockStack) : Prop where
  cursor : ∀ name, (after.slot name).cursor = (before.slot name).cursor
  length : ∀ name, (after.slot name).bodies.length = (before.slot name).bodies.length
  pending : ∀ name (level : Nat) ids, (after.slot name).bodies[level]? = some (.pending ids) →
    (before.slot name).bodies[level]? = some (.pending ids)
  compiled : ∀ name level output, (before.slot name).cursor ≤ level →
    (before.slot name).bodies[level]? = some (.compiled output) →
    (after.slot name).bodies[level]? = some (.compiled output)
  fewer : after.pendingCount ≤ before.pendingCount

variable {before inner after : BlockStack}

theorem Advances.refl (s : BlockStack) : s.Advances s :=
  ⟨fun _ => rfl, fun _ => rfl, fun _ _ _ => id, fun _ _ _ _ => id, Nat.le_refl _⟩

theorem Advances.trans (one : before.Advances inner) (two : inner.Advances after) : before.Advances after where
  cursor name := (two.cursor name).trans (one.cursor name)
  length name := (two.length name).trans (one.length name)
  pending name level ids found := one.pending name level ids (two.pending name level ids found)
  compiled name level output le found :=
    two.compiled name level output (one.cursor name ▸ le) (one.compiled name level output le found)
  fewer := Nat.le_trans two.fewer one.fewer

/-- The slot of a name whose next body is entered. -/
theorem slot_enter (s : BlockStack) (name : Text) (position : Nat) :
    (s.enter name position).slot name
      = ⟨(s.slot name).cursor + 1, (s.slot name).bodies.set position (.compiled [])⟩ :=
  slot_modify_same s name _

theorem slot_enter_ne (s : BlockStack) {name other : Text} (position : Nat) (ne : other ≠ name) :
    (s.enter name position).slot other = s.slot other :=
  slot_modify_ne s _ ne

theorem slot_leave (s : BlockStack) (name : Text) (position : Nat) (body : Body) :
    (s.leave name position body).slot name = ⟨(s.slot name).cursor - 1, (s.slot name).bodies.set position body⟩ :=
  slot_modify_same s name _

theorem slot_leave_ne (s : BlockStack) {name other : Text} (position : Nat) (body : Body) (ne : other ≠ name) :
    (s.leave name position body).slot other = s.slot other :=
  slot_modify_ne s _ ne

section Body

variable {name : Text} {ids : List NodeId}
  (next : (before.slot name).bodies[(before.slot name).cursor]? = some (.pending ids))
  (inside : (before.enter name (before.slot name).cursor).Advances inner)
include inside

/-- The cursor stands one further in at the end of a body, so it can go back. -/
theorem Advances.cursor_inside : (inner.slot name).cursor = (before.slot name).cursor + 1 := by
  rw [inside.cursor, slot_enter]

/-- The place of a body is there at its end. -/
theorem Advances.length_inside : (inner.slot name).bodies.length = (before.slot name).bodies.length := by
  rw [inside.length, slot_enter, List.length_set]

include next

/-- **A body is compiled**: the stack has advanced when its nodes have been compiled inside of it. -/
theorem Advances.leave (keep : Retention) (output : Text) :
    before.Advances (inner.leave name (before.slot name).cursor (keep.body ids output)) where
  cursor other := by
    by_cases same : other = name
    · subst same
      rw [slot_leave, inside.cursor_inside, Nat.add_sub_cancel]
    · rw [slot_leave_ne _ _ _ same, inside.cursor, slot_enter_ne _ _ same]
  length other := by
    by_cases same : other = name
    · subst same
      rw [slot_leave, List.length_set, inside.length_inside]
    · rw [slot_leave_ne _ _ _ same, inside.length, slot_enter_ne _ _ same]
  pending other level ids' found := by
    by_cases same : other = name
    · subst same
      rw [slot_leave] at found
      by_cases here : level = (before.slot other).cursor
      · subst here
        obtain ⟨bound, eq⟩ := List.getElem?_eq_some_iff.1 found
        rw [List.getElem_set_self] at eq
        cases keep <;> cases eq
        exact next
      · rw [List.getElem?_set_ne (Ne.symm here)] at found
        have entered := inside.pending other level ids' found
        rwa [slot_enter, List.getElem?_set_ne (Ne.symm here)] at entered
    · rw [slot_leave_ne _ _ _ same] at found
      have entered := inside.pending other level ids' found
      rwa [slot_enter_ne _ _ same] at entered
  compiled other level output' le found := by
    by_cases same : other = name
    · subst same
      have behind : (before.slot other).cursor ≠ level := by
        rintro rfl
        rw [next] at found
        cases found
      rw [slot_leave, List.getElem?_set_ne behind]
      apply inside.compiled
      · rw [slot_enter]
        exact Nat.lt_of_le_of_ne le behind
      · rwa [slot_enter, List.getElem?_set_ne behind]
    · rw [slot_leave_ne _ _ _ same]
      apply inside.compiled <;> rwa [slot_enter_ne _ _ same]
  fewer := by
    have entered := pendingCount_enter next
    have left := pendingCount_leave_le inner name (before.slot name).cursor (keep.body ids output)
    have fewer := inside.fewer
    omega

end Body

end BlockStack

/-! ## Runs -/

namespace Compiler

variable {σ : Type}

def Advancing (step : Step σ Text) : Prop := ∀ s : CompileState σ, s.blocks.Advances (step s).2.blocks

theorem advancing_dispatch (id : NodeId) (h : Option (StateM σ Text)) (missing : Event) :
    Advancing (dispatch id h missing) := by
  intro s
  cases h <;> exact .refl s.blocks

theorem compositional_advancing (keep : Retention) (c : Compiler σ) :
    Compositional keep c c (Alone Advancing) where
  tree := rfl
  text _ s := .refl s.blocks
  bind one two s := (one s).trans (two _ _)
  value _ _ _ _ _ := advancing_dispatch _ _ _
  block _ _ _ _ _ := advancing_dispatch _ _ _
  body {compile _} concat active name s := by
    apply resolveWith_cases (p := fun r => s.blocks.Advances r.2.blocks) keep compile active name s
      (fun _ => .refl s.blocks)
    intro ids next
    exact .leave next (concat (name :: active) ids (entered s name (s.blocks.slot name).cursor)) keep _

/-- **Every run advances the block stack.** -/
theorem advancing_nodeWith (keep : Retention) (c : Compiler σ) (depth : Nat) (active : List Text) (id : NodeId) :
    Advancing (nodeWith keep c depth active id) :=
  (compositional_advancing keep c).node depth active id

theorem advancing_concat (keep : Retention) (c : Compiler σ) (depth : Nat) (active : List Text) (ids : List NodeId) :
    Advancing (concat (nodeWith keep c depth active) ids) :=
  (compositional_advancing keep c).concat ((compositional_advancing keep c).node depth active) ids

theorem advancing_resolveWith (keep : Retention) (c : Compiler σ) (depth : Nat) (active : List Text) (name : Text) :
    Advancing (resolveWith keep (nodeWith keep c depth) active name) :=
  (compositional_advancing keep c).name depth active name

/-- What depends on the state runs in the state that it depends on. -/
theorem run_get (f : CompileState σ → Step σ Text) (s : CompileState σ) : (do f (← get)) s = f s s := rfl

/-- A compiler that is asked for a node reads how deep it can go off the block stack. -/
theorem compile_eq (c : Compiler σ) (id : NodeId) (s : CompileState σ) :
    compile c id s = nodeWith .text c (c.depth s.blocks) [] id s :=
  run_get (fun s => nodeWith .text c (c.depth s.blocks) [] id) s

/-- The same for the body of a name. -/
theorem resolve_eq (c : Compiler σ) (name : Text) (s : CompileState σ) :
    resolve c name s = resolveWith .text (nodeWith .text c (c.depth s.blocks)) [] name s :=
  run_get (fun s => resolveWith .text (nodeWith .text c (c.depth s.blocks)) [] name) s

theorem advancing_compile (c : Compiler σ) (id : NodeId) : Advancing (compile c id) := by
  intro s
  rw [compile_eq]
  exact advancing_nodeWith .text c _ [] id s

theorem advancing_resolve (c : Compiler σ) (name : Text) : Advancing (resolve c name) := by
  intro s
  rw [resolve_eq]
  exact advancing_resolveWith .text c _ [] name s

end Compiler

end TagTemplate
