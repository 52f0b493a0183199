/-
# Proofs.Compile.Memoization -- compiling each body once changes nothing, in layered chains

The compiler keeps the text of a body and uses it again wherever the body is asked
for.  Compared with the compiler that puts the nodes back and compiles them again
each time (`Retention.nodes`), that changes nothing in a chain where no two names
contain each other (`compileChain_eq_outputWith_nodes`): what a body says then
does not depend on the bodies around it, so the text from the first time is the
text of every time.

Where two names do contain each other it can change the output.  The text that is
kept was compiled inside of a body of the other name, with the cursor of that name
one further in, and is used outside of it as well (`crossed_outputs_differ`).

That a chain is layered can be checked by giving its names ranks, such that a body
only asks for its own name and for names of a lower rank (`layered_of_rank`).
-/
import TagTemplate.Proofs.Compile.Output

namespace TagTemplate

set_option autoImplicit false

/-! ## Layered block stacks -/

namespace BlockStack

variable {s : BlockStack} {t : Tree}

theorem rank_of_reaches {rank : Text → Nat}
    (falls : ∀ p ∈ s.slots, ∀ body ∈ p.2.bodies, ∀ other ∈ Markup.namesOf (body.markup t),
      other = p.1 ∨ rank other < rank p.1)
    {name other : Text} (reached : s.Reaches t name other) : other = name ∨ rank other < rank name := by
  induction reached with
  | refl => exact .inl rfl
  | tail _ contains ih =>
    obtain ⟨body, mem, mentioned⟩ := contains
    obtain ⟨p, p_mem, rfl, eq⟩ := exists_slot_of_mem_bodies mem
    rcases falls p p_mem body (eq ▸ mem) _ mentioned with rfl | lower
    · exact ih
    · rcases ih with rfl | lower'
      · exact .inr lower
      · exact .inr (Nat.lt_trans lower lower')

/-- Names with ranks that fall from a body to the other names in it are layered. -/
theorem layered_of_rank (rank : Text → Nat)
    (falls : ∀ p ∈ s.slots, ∀ body ∈ p.2.bodies, ∀ other ∈ Markup.namesOf (body.markup t),
      other = p.1 ∨ rank other < rank p.1) : s.Layered t := by
  intro name other there back
  rcases rank_of_reaches falls there with same | lower
  · exact same.symm
  · rcases rank_of_reaches falls back with same | lower'
    · exact same
    · exact absurd (Nat.lt_trans lower lower') (Nat.lt_irrefl _)

end BlockStack

/-! ## Keeping texts and keeping nodes -/

/-- **Keeping the text of a body gives the same output as compiling it again each time**, for every
chain that is built from files, layered names, and handlers that leave their state alone. -/
theorem compileChain_eq_outputWith_nodes {σ : Type} (e : Engine σ) (pure : e.registry.Pure)
    {fs : FileSystem} {origin : Option Template} {source : Text} {log : List Event} {chain : Chain}
    (built : ((Chain.ofSource e.settings fs origin source).run log).1 = .ok chain)
    (layered : chain.blocks.Layered chain.tree) (s : Session σ) :
    ((e.compileChain chain).run s).1
      = .ok ⟨chain.outputWith .nodes e.registry s.handlers, chain.diagnostics⟩ := by
  rw [Engine.run_compileChain, Chain.outputWith_eq_meaning pure built layered,
    Chain.outputWith_eq_meaning pure built layered]

/-- A leaf whose body of `a` asks for `b` and for the body above it. -/
def nestedChain : Chain :=
  chainIn [(['r'], defining ['a'] ['A'] ++ defining ['b'] [])]
    (extending ['r'] ++ defining ['a'] (defining ['b'] ['B'] ++ above))

theorem compileChain_nested :
    ((libraryEngine.compileChain nestedChain).run ⟨.empty, (), []⟩).1
      = .ok ⟨nestedChain.outputWith .nodes {} (), nestedChain.diagnostics⟩ :=
  compileChain_eq_outputWith_nodes libraryEngine pure_libraryEngine (built_chainIn (by decide +kernel))
    (BlockStack.layered_of_rank (fun name => if name = ['a'] then 1 else 0) (by decide +kernel)) _

/-- The templates between a leaf that nests `b` in `a` and the root, which nest `a` in `b`. -/
def crossedTemplates : List (Text × Text) :=
  [(['m'], extending ['r'] ++ defining ['b'] (['1'] ++ defining ['a'] ['2'])),
    (['r'], defining ['a'] [] ++ ['|'] ++ defining ['b'] [])]

/-- The leaf, whose body of `b` asks for the body above it. -/
def crossedLeaf : Text := extending ['m'] ++ defining ['a'] (['3'] ++ defining ['b'] (['4'] ++ above))

/-- **Where names contain each other, the text that is kept can be another one.**  The body of `b` asks
for the one above, which asks for `a`: inside of `a` that is the body of the next file, outside of it
the body of the leaf. -/
theorem crossed_outputs_differ :
    ∃ chain, followIn crossedTemplates crossedLeaf = .ok chain ∧
      ((libraryEngine.compileChain chain).run ⟨.empty, (), []⟩).1.toOption.map (·.output)
        = some "3412|412".toList ∧
      chain.outputWith .nodes libraryEngine.registry () = "3412|413".toList :=
  ⟨chainIn crossedTemplates crossedLeaf, built_chainIn (by decide +kernel), by decide +kernel, by decide +kernel⟩

end TagTemplate
