/-
# Proofs.Compile.Output -- what an engine makes of a chain

The output of a chain is the text of the root of its last file, compiled with all
cursors at the start and no handler called yet (`Chain.outputWith`).  An engine
keeps texts of bodies (`run_compileChain`).

A chain that was built from files has an ordered arena and its cursors at the
start, so the run of the compiler gives the meaning of its markup
(`outputWith_eq_meaning`).
-/
import TagTemplate.Engine
import TagTemplate.Proofs.Chain
import TagTemplate.Proofs.Compile.Run

namespace TagTemplate

set_option autoImplicit false

variable {σ : Type}

namespace Chain

def initial (chain : Chain) (handlers : σ) : CompileState σ := { handlers, blocks := chain.blocks }

/-- The output of a chain when texts, or nodes, are kept of its bodies. -/
def outputWith (keep : Retention) (registry : Registry σ) (handlers : σ) (chain : Chain) : Text :=
  ((Compiler.compileWith keep ⟨chain.tree, registry⟩ chain.root).run (chain.initial handlers)).1

theorem outputWith_eq_meaning {keep : Retention} {registry : Registry σ} (pure : registry.Pure)
    {settings : Settings} {fs : FileSystem} {origin : Option Template} {source : Text} {log : List Event}
    {chain : Chain} (built : ((ofSource settings fs origin source).run log).1 = .ok chain)
    (layered : chain.blocks.Layered chain.tree) (handlers : σ) :
    chain.outputWith keep registry handlers =
      (chain.tree.markup chain.root).meaning
        (Compiler.senseIn ⟨chain.tree, registry⟩ (chain.initial handlers) []) := by
  have g := gathered_of_ofSource built
  exact Compiler.compileWith_eq_meaning ⟨chain.tree, registry⟩ (chain.initial handlers) pure g.ordered layered
    g.cursor chain.root

end Chain

/-- Compiling a chain always succeeds; an engine keeps the texts of bodies. -/
theorem Engine.run_compileChain (e : Engine σ) (chain : Chain) (s : Session σ) :
    ((e.compileChain chain).run s).1
      = .ok ⟨chain.outputWith .text e.registry s.handlers, chain.diagnostics⟩ := rfl

/-- An engine with no handlers that finds templates in the root directory. -/
def libraryEngine : Engine Unit := { registry := {}, settings := librarySettings, cache := ⟨[]⟩ }

theorem pure_libraryEngine : libraryEngine.registry.Pure :=
  ⟨(fun _ _ found => nomatch found), (fun _ _ found => nomatch found)⟩

end TagTemplate
