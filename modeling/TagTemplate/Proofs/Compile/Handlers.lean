/-
# Proofs.Compile.Handlers -- compiling leaves the state of pure handlers alone

Handlers that leave their state alone are in the same state after every step of
the compiler, whatever tree it compiles and whatever is kept of a body
(`keeps_compileWith`).  Unlike the text of a body, this needs nothing of the tree
or of the block stack.
-/
import TagTemplate.Proofs.Compile.Advance

namespace TagTemplate

set_option autoImplicit false

namespace Compiler

variable {σ : Type} {c : Compiler σ} {keep : Retention}

/-- A step leaves the state of the handlers as it was. -/
def Keeps {α : Type} (step : Step σ α) : Prop := ∀ s, (step s).2.handlers = s.handlers

theorem keeps_dispatch (id : NodeId) (h : Option (StateM σ Text)) (missing : Event)
    (pure : ∀ step, h = some step → ∀ state, (step state).2 = state) : Keeps (dispatch id h missing) := by
  intro s
  cases h with
  | none => rfl
  | some step => exact pure step rfl s.handlers

theorem compositional_keeps (keep : Retention) (pure : c.registry.Pure) : Compositional keep c c (Alone Keeps) where
  tree := rfl
  text _ _ := rfl
  bind one two s := (two _ _).trans (one s)
  value id tag attributes raw _ := keeps_dispatch id _ _ fun step found => by
    obtain ⟨h, eq, rfl⟩ := Option.map_eq_some_iff.1 found
    exact pure.value tag h eq attributes raw
  block id tag attributes content _ := keeps_dispatch id _ _ fun step found => by
    obtain ⟨h, eq, rfl⟩ := Option.map_eq_some_iff.1 found
    exact pure.block tag h eq attributes content
  body {compile _} concat active name s := by
    apply resolveWith_cases (p := fun r => r.2.handlers = s.handlers) keep compile active name s (fun _ => rfl)
    intro ids _
    exact concat (name :: active) ids (entered s name (s.blocks.slot name).cursor)

theorem keeps_compileWith (pure : c.registry.Pure) (id : NodeId) : Keeps (compileWith keep c id) :=
  fun s => (compositional_keeps keep pure).node (c.depth s.blocks) [] id s

end Compiler

end TagTemplate
