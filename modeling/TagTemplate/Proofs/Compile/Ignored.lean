/-
# Proofs.Compile.Ignored -- what stands in a block that is never closed

A node stands ignored in a block that is never closed when no closed definition
comes between them (`Tree.isIgnored`).  Such nodes have no part in the output of a
chain, whatever its other files define, and no handler is called for their tags: the
output, the state of the handlers and the log are the same with any other nodes in
their place (`compileChain_ignores`).  The blocks in question are those that the
diagnostics of the chain report.

The reason is that a run of the compiler only ever comes to nodes that are not
ignored.  It goes from a node to its children if the node is a root or a closed block,
and to the bodies on the block stack, whose nodes closed definitions held
(`Tree.Owned`).

A closed definition is where that ends.  Its nodes are a body on the block stack from
then on, also when the block around it is given up later, and print wherever the name
is used (`reported_block_prints`).
-/
import TagTemplate.Proofs.Compile.Invariant
import TagTemplate.Proofs.Compile.Output

namespace TagTemplate

set_option autoImplicit false

variable {σ : Type}

namespace Tree

/-! ## Ignored nodes -/

/-- Whether the first unclosed block or closed definition above a node is an unclosed block. -/
def isIgnored (t : Tree) (id : NodeId) : Bool :=
  ((t.ancestors id).find? fun p => t.isUnclosed p || (t.closedName? p).isSome).any t.isUnclosed

/-- The arenas have the same nodes, except for those that are ignored. -/
structure SameOutside (t t' : Tree) : Prop where
  size : t'.size = t.size
  node : ∀ id, t.isIgnored id = false → t'.node? id = t.node? id

variable {t : Tree} {s : BlockStack} {path : List NodeId}

theorem isUnclosed_of_closedName? {id : NodeId} (closed : (t.closedName? id).isSome) : t.isUnclosed id = false := by
  unfold closedName? at closed
  unfold isUnclosed
  cases kind : t.kind? id with
  | none => rfl
  | some k =>
    rw [kind] at closed
    cases k with
    | definition name attributes state => cases state <;> first | rfl | cases closed
    | _ => cases closed

/-- A node in an unclosed block is ignored, unless there is a closed definition between them. -/
theorem isIgnored_iff (t : Tree) (id : NodeId) :
    t.isIgnored id = true ↔ ∃ before outer after, t.ancestors id = before ++ outer :: after ∧
      t.isUnclosed outer = true ∧ ∀ p ∈ before, t.isUnclosed p = false ∧ t.closedName? p = none := by
  rw [isIgnored, Option.any_eq_true]
  constructor
  · rintro ⟨outer, found, unclosed⟩
    obtain ⟨-, before, after, split, none⟩ := List.find?_eq_some_iff_append.1 found
    refine ⟨before, outer, after, split, unclosed, fun p mem => ?_⟩
    simpa using none p mem
  · rintro ⟨before, outer, after, split, unclosed, none⟩
    refine ⟨outer, List.find?_eq_some_iff_append.2 ⟨by simp [unclosed], before, after, split, fun p mem => ?_⟩, unclosed⟩
    simpa using none p mem

theorem isIgnored_of_parent? (rising : t.Rising) {id p : NodeId} (parent : t.parent? id = some p) :
    t.isIgnored id =
      if t.isUnclosed p then true else if (t.closedName? p).isSome then false else t.isIgnored p := by
  rw [isIgnored, ancestors_of_parent? rising parent, List.find?_cons]
  by_cases unclosed : t.isUnclosed p = true
  · simp [unclosed]
  · by_cases closed : (t.closedName? p).isSome = true
    · simp [unclosed, closed]
    · simp [unclosed, closed, isIgnored]

/-- What a closed definition held is not ignored, whatever is around it. -/
theorem not_isIgnored_of_owned (rising : t.Rising) {id : NodeId}
    (owned : ∃ outer, t.parent? id = some outer ∧ (t.closedName? outer).isSome) : t.isIgnored id = false := by
  obtain ⟨outer, parent, closed⟩ := owned
  rw [isIgnored_of_parent? rising parent, isUnclosed_of_closedName? closed, closed]
  rfl

theorem not_isIgnored_of_mem_children (g : t.Gathered s path) {id child : NodeId} (mem : child ∈ t.children id)
    (settled : t.isUnclosed id = false) (outside : t.isIgnored id = false) : t.isIgnored child = false := by
  rw [g.children] at mem
  split at mem
  · cases mem
  · rename_i unclosed
    rw [isIgnored_of_parent? g.rising ((mem_offspring_iff ..).1 mem), settled, if_neg unclosed, outside]
    rfl

end Tree

namespace Compiler

/-! ## A run comes to no ignored node -/

/-- The nodes a run comes to are not ignored; of the texts nothing is said. -/
def outside (t : Tree) : Regime where
  reached id := t.isIgnored id = false
  dispatched id := t.isIgnored id = false ∧ t.isUnclosed id = false
  text _ := True

theorem sound_outside {c c' : Compiler σ} {s : BlockStack} {path : List NodeId} (g : c.tree.Gathered s path)
    (same : c.tree.SameOutside c'.tree) (registry : c'.registry = c.registry) : (outside c.tree).Sound c c' where
  registry := registry
  node id reached := same.node id reached
  child _ reached settled _ mem := Tree.not_isIgnored_of_mem_children g mem settled reached
  dispatch _ reached settled := ⟨reached, settled⟩
  leaf _ _ _ _ := trivial
  composes := ⟨trivial, fun _ _ _ _ => trivial, fun _ _ _ _ _ _ => trivial, fun _ _ _ _ _ _ _ => trivial⟩

end Compiler

/-! ## Chains -/

namespace Chain

theorem parent?_root_build {tree : Tree} {blocks : BlockStack} (tokens : List Token) (source : Text)
    (g : tree.Gathered blocks []) :
    (Tree.build tokens source tree blocks).tree.parent? (Tree.build tokens source tree blocks).root = none := by
  have sound := Builder.sound_foldl_push tokens _ (Builder.sound_start source g)
  obtain ⟨tree_eq, -, root_eq⟩ := Builder.foldl_reportMissing _
    (tokens.foldl Builder.push (Builder.start source tree blocks))
  rw [Tree.build, Builder.finish, tree_eq, root_eq]
  exact sound.root_parent

theorem parent?_root_of_follows {s : Settings} {fs : FileSystem} {c chain : Chain} {origin : Option Template}
    {source : Text} {further : List Location} (follows : Follows s fs c origin source further chain)
    (g : c.tree.Gathered c.blocks []) : chain.tree.parent? chain.root = none := by
  induction follows with
  | last _ => exact parent?_root_build _ _ g
  | next _ _ _ _ _ ih => exact ih (Tree.gathered_build _ _ g)

/-- The nodes of a chain whose tags an engine dispatches, in order. -/
def dispatched (registry : Registry σ) (handlers : σ) (chain : Chain) : List NodeId :=
  ((Compiler.compile ⟨chain.tree, registry⟩ chain.root).run (chain.initial handlers)).2.dispatched

/-- Compiling the root of a chain is the same whatever its ignored nodes are. -/
theorem compile_of_sameOutside {settings : Settings} {fs : FileSystem} {origin : Option Template} {source : Text}
    {log : List Event} {chain : Chain} (built : ((ofSource settings fs origin source).run log).1 = .ok chain)
    (registry : Registry σ) (handlers : σ) {tree : Tree} (same : chain.tree.SameOutside tree) :
    Compiler.compile ⟨tree, registry⟩ chain.root (chain.initial handlers)
        = Compiler.compile ⟨chain.tree, registry⟩ chain.root (chain.initial handlers) ∧
      (Compiler.outside chain.tree).Kept
        (Compiler.compile ⟨chain.tree, registry⟩ chain.root (chain.initial handlers)).2 := by
  have g := gathered_of_ofSource built
  have kept : (Compiler.outside chain.tree).Kept (chain.initial handlers) :=
    ⟨fun name ids mem id id_mem =>
      Tree.not_isIgnored_of_owned g.rising (owned_of_ofSource built name ids mem id id_mem), fun _ _ _ => trivial, nofun⟩
  have root : chain.tree.isIgnored chain.root = false := by
    obtain ⟨_, follows⟩ := ofSource_eq_ok_iff.1 built
    rw [Tree.isIgnored, Tree.ancestors_of_none (parent?_root_of_follows follows gathered_empty)]
    rfl
  have depth : Compiler.depth ⟨tree, registry⟩ chain.blocks = Compiler.depth ⟨chain.tree, registry⟩ chain.blocks := by
    rw [Compiler.depth, Compiler.depth, same.size]
  let c : Compiler σ := ⟨chain.tree, registry⟩
  let c' : Compiler σ := ⟨tree, registry⟩
  have registry_eq : c'.registry = c.registry := rfl
  have sound : (Compiler.outside c.tree).Sound c c' := Compiler.sound_outside g same registry_eq
  obtain ⟨eq, -, kept'⟩ := Compiler.Regime.agrees_nodeWith sound .text (c.depth chain.blocks) [] chain.root root _ kept
  refine ⟨?_, kept'⟩
  show Compiler.nodeWith .text c' (c'.depth chain.blocks) [] chain.root _ = _
  rw [show c'.depth chain.blocks = c.depth chain.blocks from depth]
  exact eq

/-- What compiling a chain comes to, with what it does to the session. -/
theorem run_compileChain (e : Engine σ) (chain : Chain) (s : Session σ) :
    (e.compileChain chain).run s =
      let r := Compiler.compile ⟨chain.tree, e.registry⟩ chain.root (chain.initial s.handlers)
      let finished := Event.compiledChain (chain.visited.length + 1) chain.tree.size chain.diagnostics.length
      (.ok ⟨r.1, chain.diagnostics⟩,
        { s with handlers := r.2.handlers, events := s.events ++ r.2.events ++ [finished] }) := rfl

end Chain

/-- **What stands ignored in the blocks that a chain reports has no part in what it is compiled to**: no
tag there is dispatched, and with any other nodes in their place output, handlers and log are the same.
The reported blocks are those that were never closed, each of them once. -/
theorem compileChain_ignores (e : Engine σ) {fs : FileSystem} {origin : Option Template} {source : Text}
    {log : List Event} {chain : Chain} (built : ((Chain.ofSource e.settings fs origin source).run log).1 = .ok chain)
    (s : Session σ) :
    (Diagnostic.missingPlaces chain.diagnostics).Perm (chain.tree.unclosed.map chain.tree.place) ∧
      (∀ id ∈ chain.dispatched e.registry s.handlers,
        chain.tree.isIgnored id = false ∧ chain.tree.isUnclosed id = false) ∧
      ∀ tree, chain.tree.SameOutside tree →
        (e.compileChain { chain with tree }).run s = (e.compileChain chain).run s := by
  refine ⟨Chain.missingPlaces_of_ofSource built, ?_, fun tree same => ?_⟩
  · exact (Chain.compile_of_sameOutside built e.registry s.handlers ⟨rfl, fun _ _ => rfl⟩).2.dispatched
  · have eq := (Chain.compile_of_sameOutside built e.registry s.handlers same).1
    rw [Chain.run_compileChain, Chain.run_compileChain, ← eq, ← same.size]
    rfl

/-- A block is closed around one that is not, in which a definition stands and a text behind it; the name of
the definition has a body outside as well. -/
def unclosedSource : Text :=
  "<tpl:Outer><tpl:Wrap>".toList ++ defining ['a'] "lost".toList ++ "gone</tpl:Outer>".toList
    ++ defining ['a'] "kept".toList

theorem compileChain_unclosedSource :
    (Diagnostic.missingPlaces (chainIn [] unclosedSource).diagnostics).Perm
        ((chainIn [] unclosedSource).tree.unclosed.map (chainIn [] unclosedSource).tree.place) ∧
      (∀ id ∈ (chainIn [] unclosedSource).dispatched libraryEngine.registry (),
        (chainIn [] unclosedSource).tree.isIgnored id = false ∧
          (chainIn [] unclosedSource).tree.isUnclosed id = false) ∧
      ∀ tree, (chainIn [] unclosedSource).tree.SameOutside tree →
        (libraryEngine.compileChain { chainIn [] unclosedSource with tree }).run ⟨.empty, (), []⟩
          = (libraryEngine.compileChain (chainIn [] unclosedSource)).run ⟨.empty, (), []⟩ :=
  compileChain_ignores libraryEngine (built_chainIn (by decide +kernel)) _

/-- **The content of a reported block can print.**  The text lies in the reported block, held by a definition
that was closed before that was given up, and is the output of the chain. -/
theorem reported_block_prints :
    ∃ chain text outer, followIn [] unclosedSource = .ok chain ∧
      chain.tree.kind? text = some (.text "lost".toList) ∧ outer ∈ chain.tree.ancestors text ∧
      chain.tree.place outer ∈ Diagnostic.missingPlaces chain.diagnostics ∧ outer ∈ chain.tree.unclosed ∧
      ((libraryEngine.compileChain chain).run ⟨.empty, (), []⟩).1.toOption.map (·.output) = some "lost".toList :=
  ⟨chainIn [] unclosedSource, 4, 2, built_chainIn (by decide +kernel), by decide +kernel, by decide +kernel,
    by decide +kernel, by decide +kernel, by decide +kernel⟩

/-- The text behind the definition is ignored. -/
example : (chainIn [] unclosedSource).tree.kind? 5 = some (.text "gone".toList) ∧
    (chainIn [] unclosedSource).tree.isIgnored 5 = true := by decide +kernel

end TagTemplate
