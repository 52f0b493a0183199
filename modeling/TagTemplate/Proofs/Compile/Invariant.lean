/-
# Proofs.Compile.Invariant -- what a run of the compiler keeps

A run comes to a node in two ways only: from a closed block or a root to its children,
and from a name to a body on the block stack.  So a property of nodes that goes from
such blocks to their children holds of every node that a run comes to, if it holds of
the bodies at the start; and a property of texts that is kept when texts are joined
and by the handlers holds of every text that a run gives (`Regime`).

Two compilers whose trees agree on the nodes in question do the same there
(`Regime.agrees_nodeWith`).
-/
import TagTemplate.Proofs.Compile.Run
import TagTemplate.Proofs.Tree.Unclosed

namespace TagTemplate

set_option autoImplicit false

namespace Compiler

variable {σ : Type}

/-- A property that joined texts and what handlers give have as well. -/
structure Composes (p : Text → Prop) (registry : Registry σ) : Prop where
  nil : p []
  append : ∀ s t, p s → p t → p (s ++ t)
  value : ∀ tag h, registry.valueHandler? tag = some h → ∀ attributes raw s, p (h attributes raw s).1
  block : ∀ tag h, registry.blockHandler? tag = some h → ∀ attributes content, p content →
    ∀ s, p (h attributes content s).1

/-- Properties of the nodes a run comes to, of those whose tags it dispatches, and of the texts it gives. -/
structure Regime where
  reached : NodeId → Prop
  dispatched : NodeId → Prop
  text : Text → Prop

namespace Regime

/-- The properties hold of what a state keeps. -/
structure Kept (r : Regime) (s : CompileState σ) : Prop where
  pending : ∀ name ids, .pending ids ∈ (s.blocks.slot name).bodies → ∀ id ∈ ids, r.reached id
  compiled : ∀ name output, .compiled output ∈ (s.blocks.slot name).bodies → r.text output
  dispatched : ∀ id ∈ s.dispatched, r.dispatched id

/-- The properties go from a node to what it is compiled from, and the trees of both compilers agree on the
nodes reached. -/
structure Sound (r : Regime) (c c' : Compiler σ) : Prop where
  registry : c'.registry = c.registry
  node : ∀ id, r.reached id → c'.tree.node? id = c.tree.node? id
  child : ∀ id, r.reached id → c.tree.isUnclosed id = false → ∀ child ∈ c.tree.children id, r.reached child
  dispatch : ∀ id, r.reached id → c.tree.isUnclosed id = false → r.dispatched id
  leaf : ∀ id t, r.reached id → c.tree.kind? id = some (.text t) → r.text t
  composes : Composes r.text c.registry

/-- Two steps do the same, and keep the properties. -/
def Agrees (r : Regime) (step step' : Step σ Text) : Prop :=
  ∀ s, r.Kept s → step' s = step s ∧ r.text (step s).1 ∧ r.Kept (step s).2

variable {r : Regime}

theorem agrees_return {text : Text} (holds : r.text text) : r.Agrees (σ := σ) (pure text) (pure text) :=
  fun _ kept => ⟨rfl, holds, kept⟩

theorem agrees_bind {first first' : Step σ Text} {next next' : Text → Step σ Text} (agrees : r.Agrees first first')
    (agrees' : ∀ text, r.text text → r.Agrees (next text) (next' text)) :
    r.Agrees (first >>= next) (first' >>= next') := by
  intro s kept
  obtain ⟨eq, holds, kept₁⟩ := agrees s kept
  obtain ⟨eq', holds', kept₂⟩ := agrees' (first s).1 holds (first s).2 kept₁
  refine ⟨?_, holds', kept₂⟩
  show next' (first' s).1 (first' s).2 = next (first s).1 (first s).2
  rw [eq, eq']

section Steps

variable {c c' : Compiler σ} (sound : r.Sound c c')
include sound

theorem agrees_concat {compile compile' : NodeId → Step σ Text} (ids : List NodeId)
    (each : ∀ id ∈ ids, r.Agrees (compile id) (compile' id)) :
    r.Agrees (concat compile ids) (concat compile' ids) := by
  induction ids with
  | nil => exact agrees_return sound.composes.nil
  | cons id ids ih =>
    refine agrees_bind (each id (List.mem_cons_self ..)) fun text holds => ?_
    refine agrees_bind (ih fun i mem => each i (List.mem_cons_of_mem _ mem)) fun rest holds' => ?_
    exact agrees_return (sound.composes.append text rest holds holds')

theorem agrees_dispatch {id : NodeId} (dispatched : r.dispatched id) {h : Option (StateM σ Text)}
    (holds : ∀ step, h = some step → ∀ s, r.text (step s).1) (missing : Event) :
    r.Agrees (dispatch id h missing) (dispatch id h missing) := by
  intro s kept
  have both : ∀ i ∈ s.dispatched ++ [id], r.dispatched i := by
    intro i mem
    rcases List.mem_append.1 mem with mem | mem
    · exact kept.dispatched i mem
    · exact List.mem_singleton.1 mem ▸ dispatched
  cases h with
  | none => exact ⟨rfl, sound.composes.nil, kept.pending, kept.compiled, both⟩
  | some step => exact ⟨rfl, holds step rfl s.handlers, kept.pending, kept.compiled, both⟩

theorem kept_enter {s : CompileState σ} (kept : r.Kept s) (name : Text) (position : Nat) :
    r.Kept (entered s name position) := by
  have old {other : Text} {body : Body} (mem : body ∈ ((entered s name position).blocks.slot other).bodies) :
      body ∈ (s.blocks.slot other).bodies ∨ body = .compiled [] := by
    by_cases same : other = name
    · subst same
      simp only [entered, BlockStack.enter, BlockStack.slot_modify_same] at mem
      exact List.mem_or_eq_of_mem_set mem
    · simp only [entered, BlockStack.enter, BlockStack.slot_modify_ne _ _ same] at mem
      exact .inl mem
  refine ⟨fun other ids mem => ?_, fun other output mem => ?_, kept.dispatched⟩
  · rcases old mem with mem | eq
    · exact kept.pending other ids mem
    · cases eq
  · rcases old mem with mem | eq
    · exact kept.compiled other output mem
    · cases eq
      exact sound.composes.nil

omit sound in
theorem kept_leave {s : CompileState σ} (kept : r.Kept s) {ids : List NodeId} (reached : ∀ id ∈ ids, r.reached id)
    {output : Text} (holds : r.text output) (keep : Retention) (name : Text) (position : Nat) :
    r.Kept { s with blocks := s.blocks.leave name position (keep.body ids output) } := by
  have old {other : Text} {body : Body}
      (mem : body ∈ ((s.blocks.leave name position (keep.body ids output)).slot other).bodies) :
      body ∈ (s.blocks.slot other).bodies ∨ body = keep.body ids output := by
    by_cases same : other = name
    · subst same
      simp only [BlockStack.leave, BlockStack.slot_modify_same] at mem
      exact List.mem_or_eq_of_mem_set mem
    · simp only [BlockStack.leave, BlockStack.slot_modify_ne _ _ same] at mem
      exact .inl mem
  refine ⟨fun other ids' mem => ?_, fun other output' mem => ?_, kept.dispatched⟩
  · rcases old mem with mem | eq
    · exact kept.pending other ids' mem
    · cases keep <;> cases eq
      exact reached
  · rcases old mem with mem | eq
    · exact kept.compiled other output' mem
    · cases keep <;> cases eq
      exact holds

theorem agrees_resolveWith {keep : Retention} {compile compile' : List Text → NodeId → Step σ Text}
    (each : ∀ active id, r.reached id → r.Agrees (compile active id) (compile' active id))
    (active : List Text) (name : Text) :
    r.Agrees (resolveWith keep compile active name) (resolveWith keep compile' active name) := by
  intro s kept
  cases next : (s.blocks.slot name).bodies[(s.blocks.slot name).cursor]? with
  | none =>
    rw [resolveWith_of_none next, resolveWith_of_none next]
    exact ⟨rfl, sound.composes.nil, kept⟩
  | some body =>
    cases body with
    | compiled output =>
      rw [resolveWith_of_compiled next, resolveWith_of_compiled next]
      exact ⟨rfl, kept.compiled name output (List.mem_of_getElem? next), kept⟩
    | pending ids =>
      have reached := kept.pending name ids (List.mem_of_getElem? next)
      obtain ⟨eq, holds, kept'⟩ := agrees_concat sound ids (fun id mem => each (name :: active) id (reached id mem)) _
        (kept_enter sound kept name (s.blocks.slot name).cursor)
      rw [resolveWith_of_pending rfl next, resolveWith_of_pending rfl next, eq]
      exact ⟨rfl, holds, kept_leave kept' reached holds keep name _⟩

/-- **Both compilers do the same at a node that has the property**, and keep the properties. -/
theorem agrees_nodeWith (keep : Retention) (depth : Nat) :
    ∀ active id, r.reached id → r.Agrees (nodeWith keep c depth active id) (nodeWith keep c' depth active id) := by
  induction depth with
  | zero => exact fun _ _ _ => agrees_return sound.composes.nil
  | succ depth ih =>
    intro active id reached
    have kind' : c'.tree.kind? id = c.tree.kind? id := by rw [Tree.kind?, sound.node id reached, Tree.kind?]
    have children' : c'.tree.children id = c.tree.children id := by
      rw [Tree.children, sound.node id reached, Tree.children]
    have below : c.tree.isUnclosed id = false →
        r.Agrees (concat (nodeWith keep c depth active) (c.tree.children id))
          (concat (nodeWith keep c' depth active) (c.tree.children id)) := fun settled =>
      agrees_concat sound _ fun child mem => ih active child (sound.child id reached settled child mem)
    unfold nodeWith
    rw [kind', children', sound.registry]
    cases kind : c.tree.kind? id with
    | none => exact agrees_return sound.composes.nil
    | some k =>
      have unclosed : c.tree.isUnclosed id = k.isUnclosed := by rw [Tree.isUnclosed, kind, Option.any_some]
      cases k with
      | root => exact below unclosed
      | text x => exact agrees_return (sound.leaf id x reached kind)
      | value tag attributes raw =>
        refine agrees_dispatch sound (sound.dispatch id reached unclosed) (fun step found s => ?_) _
        obtain ⟨h, handler, rfl⟩ := Option.map_eq_some_iff.1 found
        exact sound.composes.value tag h handler attributes raw s
      | parentValue =>
        cases active with
        | nil => exact agrees_return sound.composes.nil
        | cons name active => exact agrees_resolveWith sound ih (name :: active) name
      | block tag attributes state =>
        cases state with
        | closed =>
          refine agrees_bind (below unclosed) fun content holds => ?_
          refine agrees_dispatch sound (sound.dispatch id reached unclosed) (fun step found s => ?_) _
          obtain ⟨h, handler, rfl⟩ := Option.map_eq_some_iff.1 found
          exact sound.composes.block tag h handler attributes content holds s
        | opened => exact agrees_return sound.composes.nil
        | abandoned => exact agrees_return sound.composes.nil
      | definition name attributes state =>
        cases state with
        | closed => exact agrees_resolveWith sound ih active name
        | opened => exact agrees_return sound.composes.nil
        | abandoned => exact agrees_return sound.composes.nil

end Steps

end Regime

end Compiler

end TagTemplate
