/-
# Proofs.Engine.Extending -- of a file that extends another only its definitions matter

A file that extends another contributes its bodies and the name of that other file, and
both survive edits outside of its block definitions.  So along a chain the arena changes
and the block stack goes on saying the same, file by file (`Chain.Follows.revise`); the
last file extends nothing, is not edited, and its root says the same.  A run depends on
no more than that, so output and handlers come out the same
(`only_definitions_matter`).

The files may be edited all at once.  What is asked of the search path is that it finds
the same places: where a template is does not depend on what is in it.

The other half is that nobody looks at what was edited.  A run only ever comes to the last
file and to what closed definitions hold, so a tag elsewhere is never dispatched.
-/
import TagTemplate.Proofs.Compile.Ignored
import TagTemplate.Proofs.Compile.Recovery
import TagTemplate.Proofs.Engine.Walk
import TagTemplate.Proofs.Tree.Locality
import TagTemplate.Proofs.Tree.Revision

namespace TagTemplate

set_option autoImplicit false

variable {σ : Type}

/-! ## Revisions -/

namespace Settings

def alone (s : Settings) (source : Text) : Builder :=
  Tree.build (Token.tokenize (Source.prepare s.options source)) (Source.prepare s.options source) {} {}

/-- A source is the same, or it extends a template and was edited outside of its block definitions. -/
def Revises (s : Settings) (source source' : Text) : Prop :=
  source' = source ∨ (s.extends? source).isSome ∧
    (Builder.start (Source.prepare s.options source) {} {}).Edited (Token.tokenize (Source.prepare s.options source))
      (Token.tokenize (Source.prepare s.options source'))

/-- Templates are found in the same places, and what is read there was revised. -/
structure Revised (s : Settings) (fs fs' : FileSystem) : Prop where
  places : ∀ dir ∈ s.searchPath.dirs, fs.SameBelow fs' dir
  texts : ∀ file source, fs.readAt file = .ok source → ∃ source', fs'.readAt file = .ok source' ∧ s.Revises source source'

variable {s : Settings} {source source' : Text}

theorem Revises.extends? (revises : s.Revises source source') : s.extends? source' = s.extends? source := by
  rcases revises with rfl | ⟨-, edited⟩
  · rfl
  · rw [extends?_eq, extends?_eq]
    exact edited.parent?

/-- A source and its revision contribute bodies that say the same. -/
theorem Revises.like (revises : s.Revises source source') :
    (s.alone source).blocks.Like (s.alone source).tree (s.alone source').tree (s.alone source').blocks := by
  rcases revises with rfl | ⟨-, edited⟩
  · exact ⟨fun _ => rfl, fun _ => rfl⟩
  · exact Tree.like_of_edited edited

end Settings

/-! ## One arena behind another -/

namespace Tree

variable {t new : Tree}

/-- A node goes on saying what it said with others behind it. -/
theorem markup_graft_of_lt (ordered : t.Ordered) (grafted : (t.graft new).Ordered) (i : Nat) (lt : i < t.size) :
    (t.graft new).markup i = t.markup i := by
  refine markup_congr ordered grafted (fun i lt => .inr ⟨?_, ?_, fun child mem => (ordered i child mem).2⟩) i lt
  · rw [kind?, node?_graft_of_lt _ _ lt, kind?]
  · rw [children, node?_graft_of_lt _ _ lt, children]

/-- A node says what it says on its own with others in front of it. -/
theorem markup_graft (ordered : new.Ordered) (grafted : (t.graft new).Ordered) (i : Nat) :
    (t.graft new).markup (i + t.size) = new.markup i := by
  rw [markup_eq ordered, markup_eq grafted, kind?_graft, children_graft, List.map_map]
  congr 1
  refine List.map_congr_left fun child mem => ?_
  have further := ordered i child mem
  exact markup_graft ordered grafted child
termination_by new.size - i

end Tree

namespace BlockStack

/-- A body goes on saying what it said with other nodes in front of the arena. -/
theorem said_shift {t new : Tree} (ordered : new.Ordered) (grafted : (t.graft new).Ordered) (body : Body) :
    (body.shift t.size).said (t.graft new) = body.said new := by
  cases body with
  | compiled output => rfl
  | pending ids =>
    refine congrArg (Prod.mk true) ?_
    show (ids.map (· + t.size)).map (t.graft new).markup = ids.map new.markup
    rw [List.map_map]
    exact List.map_congr_left fun id _ => Tree.markup_graft ordered grafted id

/-- What is piled on a stack says what it says on its own, and what was there before what it said. -/
theorem Piled.said {t new : Tree} {earlier alone both : BlockStack} (piled : Piled t.size earlier alone both)
    (ordered : t.Ordered) (ordered' : new.Ordered) (grafted : (t.graft new).Ordered) (owned : t.Owned earlier)
    (name : Text) :
    (both.slot name).bodies.map (Body.said (t.graft new))
      = (earlier.slot name).bodies.map (Body.said t) ++ (alone.slot name).bodies.map (Body.said new) := by
  rw [piled name, List.map_append, List.map_map]
  congr 1
  · apply owned.said_congr
    intro i p parent _
    exact Tree.markup_graft_of_lt ordered grafted i (Tree.lt_size_of_parent? parent)
  · exact List.map_congr_left fun body _ => said_shift ordered' grafted body

end BlockStack

/-! ## Chains -/

namespace Chain

variable {s : Settings} {fs fs' : FileSystem}

/-- Two chains so far, of the same files: their block stacks say the same. -/
structure Like (c c' : Chain) : Prop where
  gathered : c.tree.Gathered c.blocks []
  gathered' : c'.tree.Gathered c'.blocks []
  owned : c.tree.Owned c.blocks
  owned' : c'.tree.Owned c'.blocks
  blocks : c.blocks.Like c.tree c'.tree c'.blocks
  visited : c'.visited = c.visited

theorem like_empty : Like {} {} :=
  ⟨gathered_empty, gathered_empty, (fun _ _ mem => nomatch mem), (fun _ _ mem => nomatch mem),
    ⟨fun _ => rfl, fun _ => rfl⟩, rfl⟩

section Build

variable {c c' : Chain} {origin : Option Template} {source source' : Text}

theorem ordered_alone (s : Settings) (source : Text) : (s.alone source).tree.Ordered :=
  (Tree.gathered_build _ _ gathered_empty).ordered

theorem joined_buildFile (s : Settings) (c : Chain) (origin : Option Template) (source : Text) :
    Builder.Joined c.tree c.blocks (s.alone source) (buildFile s c origin source).1 :=
  Tree.joined_build ..

/-- **A further file and its revision** leave block stacks that say the same. -/
theorem Like.buildFile (like : Like c c') (revises : s.Revises source source') :
    Like (Chain.buildFile s c origin source).2 (Chain.buildFile s c' origin source').2 := by
  have gathered : (Chain.buildFile s c origin source).2.tree.Gathered (Chain.buildFile s c origin source).2.blocks [] :=
    Tree.gathered_build _ _ like.gathered
  have gathered' : (Chain.buildFile s c' origin source').2.tree.Gathered (Chain.buildFile s c' origin source').2.blocks [] :=
    Tree.gathered_build _ _ like.gathered'
  have joined := joined_buildFile s c origin source
  have joined' := joined_buildFile s c' origin source'
  have tree : (Chain.buildFile s c origin source).2.tree = c.tree.graft (s.alone source).tree := joined.tree
  have tree' : (Chain.buildFile s c' origin source').2.tree = c'.tree.graft (s.alone source').tree := joined'.tree
  refine ⟨gathered, gathered', Tree.owned_build _ _ like.gathered like.owned,
    Tree.owned_build _ _ like.gathered' like.owned', ?_, like.visited⟩
  constructor
  · intro name
    rw [gathered.cursor, gathered'.cursor]
  · intro name
    have grafted : (c.tree.graft (s.alone source).tree).Ordered := tree ▸ gathered.ordered
    have grafted' : (c'.tree.graft (s.alone source').tree).Ordered := tree' ▸ gathered'.ordered
    have said := joined.piled.said like.gathered.ordered (ordered_alone s source) grafted like.owned name
    have said' := joined'.piled.said like.gathered'.ordered (ordered_alone s source') grafted' like.owned' name
    rw [like.blocks.bodies, revises.like.bodies] at said
    rw [tree, tree']
    exact said.trans said'.symm

/-- The root of a file says what it says on its own. -/
theorem markup_root_buildFile (gathered : c.tree.Gathered c.blocks []) :
    (Chain.buildFile s c origin source).2.tree.markup (Chain.buildFile s c origin source).2.root
      = (s.alone source).tree.markup (s.alone source).root := by
  have joined := joined_buildFile s c origin source
  have tree : (Chain.buildFile s c origin source).2.tree = c.tree.graft (s.alone source).tree := joined.tree
  have root : (Chain.buildFile s c origin source).2.root = (s.alone source).root + c.tree.size := joined.root
  have ordered : (Chain.buildFile s c origin source).2.tree.Ordered := (Tree.gathered_build _ _ gathered).ordered
  rw [tree] at ordered ⊢
  rw [root, Tree.markup_graft (ordered_alone s source) ordered]

end Build

/-- **A chain and its revision.**  Where a chain is followed to its end, so it is when its files are revised; the
block stack says the same then, and so does the root. -/
theorem Follows.revise (revised : s.Revised fs fs') {c chain : Chain} {origin : Option Template} {source : Text}
    {further : List Location} (follows : Follows s fs c origin source further chain) :
    ∀ {c' : Chain} {source' : Text}, Like c c' → s.Revises source source' →
      ∃ chain', Follows s fs' c' origin source' further chain' ∧ Like chain chain' ∧
        chain'.tree.markup chain'.root = chain.tree.markup chain.root := by
  induction follows with
  | @last c origin source extendsNone =>
    intro c' source' like revises
    rw [extendsTarget_buildFile] at extendsNone
    have same := revises.extends?
    have next : Like (buildFile s c origin source).2 (buildFile s c' origin source').2 := like.buildFile revises
    obtain rfl | ⟨isSome, -⟩ := revises
    · refine ⟨_, .last ?_, next, ?_⟩
      · rw [extendsTarget_buildFile, extendsNone]
      · rw [markup_root_buildFile like.gathered, markup_root_buildFile like.gathered']
    · rw [extendsNone] at isSome
      cases isSome
  | @next c chain origin source text target next files extendsTarget found fresh reads _ ih =>
    intro c' source' like revises
    have built : Like (buildFile s c origin source).2 (buildFile s c' origin source').2 := like.buildFile revises
    have extendsTarget' : (buildFile s c' origin source').1.extendsTarget = some target := by
      rw [extendsTarget_buildFile, revises.extends?, ← extendsTarget_buildFile s c origin]
      exact extendsTarget
    have visited : visitedBy c' origin = visitedBy c origin := by rw [visitedBy, visitedBy, like.visited]
    obtain ⟨text', reads', revises'⟩ := revised.texts next.file text reads
    have onward : Like { (buildFile s c origin source).2 with visited := visitedBy c origin }
        { (buildFile s c' origin source').2 with visited := visitedBy c' origin } :=
      ⟨built.gathered, built.gathered', built.owned, built.owned', built.blocks, visited⟩
    obtain ⟨chain', rest, like', root⟩ := ih onward revises'
    refine ⟨chain', .next extendsTarget' ?_ ?_ reads' rest, like', root⟩
    · exact (target?_congr revised.places origin target).trans found
    · rwa [visited]

/-- Chains whose block stacks and roots say the same are compiled to the same output, with the same handlers. -/
theorem Like.compile {chain chain' : Chain} (like : Like chain chain')
    (root : chain'.tree.markup chain'.root = chain.tree.markup chain.root) (registry : Registry σ) (handlers : σ) :
    (Compiler.compile ⟨chain.tree, registry⟩ chain.root (chain.initial handlers)).1
        = (Compiler.compile ⟨chain'.tree, registry⟩ chain'.root (chain'.initial handlers)).1 ∧
      (Compiler.compile ⟨chain.tree, registry⟩ chain.root (chain.initial handlers)).2.handlers
        = (Compiler.compile ⟨chain'.tree, registry⟩ chain'.root (chain'.initial handlers)).2.handlers := by
  let c : Compiler σ := ⟨chain.tree, registry⟩
  let c' : Compiler σ := ⟨chain'.tree, registry⟩
  have ordered : c.tree.Ordered := like.gathered.ordered
  have ordered' : c'.tree.Ordered := like.gathered'.ordered
  have start : Compiler.StateLike c.tree c'.tree (chain.initial handlers) (chain'.initial handlers) := ⟨rfl, like.blocks⟩
  exact Compiler.compileWith_like ordered ordered' rfl .text root.symm start

/-! ## What is never looked at -/

/-- A node is in the file of a root, or a closed definition holds it. -/
def InPlay (chain : Chain) (id : NodeId) : Prop :=
  chain.root ∈ id :: chain.tree.ancestors id ∨ ∃ outer ∈ chain.tree.ancestors id, (chain.tree.closedName? outer).isSome

/-- The nodes a run comes to are in play; of the texts nothing is said. -/
def inPlay (chain : Chain) : Compiler.Regime where
  reached := chain.InPlay
  dispatched := chain.InPlay
  text _ := True

/-- What a node in play is around is in play as well. -/
theorem InPlay.child {chain : Chain} (g : chain.tree.Gathered chain.blocks []) {id child : NodeId}
    (here : chain.InPlay id) (mem : child ∈ chain.tree.children id) : chain.InPlay child := by
  have above := Tree.ancestors_of_parent? g.rising (g.parent?_of_mem_children mem)
  unfold InPlay
  rw [above]
  rcases here with root | ⟨outer, outer_mem, closed⟩
  · exact .inl (List.mem_cons_of_mem _ root)
  · exact .inr ⟨outer, List.mem_cons_of_mem _ outer_mem, closed⟩

theorem sound_inPlay {chain : Chain} (g : chain.tree.Gathered chain.blocks []) (registry : Registry σ) :
    chain.inPlay.Sound (⟨chain.tree, registry⟩ : Compiler σ) ⟨chain.tree, registry⟩ where
  registry := rfl
  node _ _ := rfl
  child _ here _ _ mem := here.child g mem
  dispatch _ here _ := here
  leaf _ _ _ _ := trivial
  composes := ⟨trivial, fun _ _ _ _ => trivial, fun _ _ _ _ _ _ => trivial, fun _ _ _ _ _ _ _ => trivial⟩

/-- **Only tags of the last file and of closed definitions are dispatched.** -/
theorem inPlay_of_dispatched {origin : Option Template} {source : Text} {log : List Event} {chain : Chain}
    (built : ((ofSource s fs origin source).run log).1 = .ok chain) (registry : Registry σ) (handlers : σ) :
    ∀ id ∈ chain.dispatched registry handlers, chain.InPlay id := by
  have g := gathered_of_ofSource built
  have kept : chain.inPlay.Kept (chain.initial handlers) := by
    refine ⟨fun name ids mem id id_mem => .inr ?_, fun _ _ _ => trivial, nofun⟩
    obtain ⟨outer, parent, closed⟩ := owned_of_ofSource built name ids mem id id_mem
    refine ⟨outer, ?_, closed⟩
    rw [Tree.ancestors_of_parent? g.rising parent]
    exact List.mem_cons_self ..
  let c : Compiler σ := ⟨chain.tree, registry⟩
  have sound : chain.inPlay.Sound c c := sound_inPlay g registry
  have root : chain.InPlay chain.root := .inl (List.mem_cons_self ..)
  obtain ⟨-, -, kept'⟩ := Compiler.Regime.agrees_nodeWith sound .text (c.depth chain.blocks) [] chain.root root _ kept
  exact kept'.dispatched

end Chain

/-! ## Compiling -/

namespace Engine

variable (e : Engine σ)

/-- When its chain is built, compiling a template is compiling the chain. -/
theorem run_compileTemplate_of_built {t : Template} {s : Session σ} {chain : Chain}
    (built : ((Chain.ofTemplate e.settings s.files t).run []).1 = .ok chain) :
    ∃ s₁ : Session σ, s₁.handlers = s.handlers ∧ (e.compileTemplate t).run s = (e.compileChain chain).run s₁ := by
  rw [compileTemplate, run_bind, run_ofLogged, built]
  refine ⟨_, ?_, rfl⟩
  rfl

theorem run_compile_of_built {name : Text} {t : Template} {s : Session σ} {chain : Chain}
    (found : e.settings.searchPath.find? s.files name = some t)
    (built : ((Chain.ofTemplate e.settings s.files t).run []).1 = .ok chain) :
    ∃ s₁ : Session σ, s₁.handlers = s.handlers ∧ (e.compile name).run s = (e.compileChain chain).run s₁ := by
  rw [compile, run_bind, run_find, found]
  exact run_compileTemplate_of_built e (s := e.lookedUp name s) built

theorem run_compileSource_of_built {source : Text} {s : Session σ} {chain : Chain}
    (built : ((Chain.ofSource e.settings s.files none source).run []).1 = .ok chain) :
    ∃ s₁ : Session σ, s₁.handlers = s.handlers ∧ (e.compileSource source).run s = (e.compileChain chain).run s₁ := by
  rw [compileSource, run_bind, run_ofLogged, built]
  refine ⟨_, ?_, rfl⟩
  rfl

/-- **A text that extends nothing is compiled as it is built on its own.** -/
theorem run_compileSource_of_extendsNone {source : Text} (extendsNone : e.settings.parent? source = none)
    (s : Session σ) :
    ((e.compileSource source).run s).1
        = .ok ⟨((e.settings.alone source).compiled e.registry s.handlers).1,
            (e.settings.alone source).diagnostics.map fun d => { d with file := none }⟩ ∧
      ((e.compileSource source).run s).2.handlers = ((e.settings.alone source).compiled e.registry s.handlers).2 := by
  have last : Chain.Follows e.settings s.files {} none source [] (Chain.buildFile e.settings {} none source).2 :=
    .last (by rw [Chain.extendsTarget_buildFile, Settings.extends?_eq, extendsNone])
  obtain ⟨s₁, same, run⟩ := e.run_compileSource_of_built (Chain.ofSource_eq_ok_iff.2 ⟨[], last⟩)
  rw [run, Chain.run_compileChain, same]
  exact ⟨rfl, rfl⟩

/-- The same output, and the handlers in the same state. -/
def SameOutput (r r' : Except Error Compilation × Session σ) : Prop :=
  ∀ compilation, r.1 = .ok compilation →
    (∃ compilation', r'.1 = .ok compilation' ∧ compilation'.output = compilation.output) ∧ r'.2.handlers = r.2.handlers

/-- Chains that say the same are compiled to the same output. -/
theorem sameOutput_compileChain {chain chain' : Chain} (like : Chain.Like chain chain')
    (root : chain'.tree.markup chain'.root = chain.tree.markup chain.root) {s s' : Session σ}
    (handlers : s'.handlers = s.handlers) :
    SameOutput ((e.compileChain chain).run s) ((e.compileChain chain').run s') := by
  obtain ⟨text, state⟩ := like.compile root e.registry s.handlers
  intro compilation compiled
  rw [Chain.run_compileChain] at compiled ⊢
  rw [Chain.run_compileChain, handlers]
  obtain rfl := Except.ok.inj compiled
  exact ⟨⟨_, rfl, text.symm⟩, state.symm⟩

variable {e} {s s' : Session σ}

theorem sameOutput_compile (handlers : s'.handlers = s.handlers) (revised : e.settings.Revised s.files s'.files)
    (name : Text) : SameOutput ((e.compile name).run s) ((e.compile name).run s') := by
  have found' := SearchPath.find?_congr revised.places name
  intro compilation compiled
  have answer := e.run_compile name s
  rw [compiled] at answer
  cases found : e.settings.searchPath.find? s.files name with
  | none =>
    rw [found] at answer
    cases answer
  | some t =>
    rw [found] at answer found'
    obtain ⟨files, chain, reads, -⟩ := e.compilationOf_eq_ok_iff.1 answer.symm
    obtain ⟨source, further, rfl, read, follows⟩ := reads.follows
    obtain ⟨source', read', revises⟩ := revised.texts t.file source read
    obtain ⟨chain', follows', like, root⟩ := follows.revise revised Chain.like_empty revises
    obtain ⟨s₁, same, run⟩ := e.run_compile_of_built found (Chain.ofTemplate_eq_ok_iff.2 ⟨_, reads⟩)
    obtain ⟨s₁', same', run'⟩ := e.run_compile_of_built found'
      (Chain.ofTemplate_eq_ok_iff.2 ⟨_, source', further, rfl, read', follows'⟩)
    rw [run] at compiled ⊢
    rw [run']
    exact e.sameOutput_compileChain like root (same'.trans (handlers.trans same.symm)) compilation compiled

theorem sameOutput_compileSource (handlers : s'.handlers = s.handlers) (revised : e.settings.Revised s.files s'.files)
    {source source' : Text} (revises : e.settings.Revises source source') :
    SameOutput ((e.compileSource source).run s) ((e.compileSource source').run s') := by
  intro compilation compiled
  have answer := e.run_compileSource source s
  rw [compiled] at answer
  cases built : ((Chain.ofSource e.settings s.files none source).run []).1 with
  | error err =>
    rw [built] at answer
    cases answer
  | ok chain =>
    obtain ⟨further, follows⟩ := Chain.ofSource_eq_ok_iff.1 built
    obtain ⟨chain', follows', like, root⟩ := follows.revise revised Chain.like_empty revises
    obtain ⟨s₁, same, run⟩ := e.run_compileSource_of_built built
    obtain ⟨s₁', same', run'⟩ := e.run_compileSource_of_built (Chain.ofSource_eq_ok_iff.2 ⟨_, follows'⟩)
    rw [run] at compiled ⊢
    rw [run']
    exact e.sameOutput_compileChain like root (same'.trans (handlers.trans same.symm)) compilation compiled

/-- **Only the block definitions of an extending file matter.**  When files that extend others are edited outside of
their block definitions, everything that compiled compiles to the same output and leaves the handlers in the same
state, templates by name and a text in memory alike.  In any chain, a tag that is neither in the last file nor inside
of a closed definition is never dispatched. -/
theorem only_definitions_matter (e : Engine σ) {s s' : Session σ} (handlers : s'.handlers = s.handlers)
    (revised : e.settings.Revised s.files s'.files) :
    (∀ name, SameOutput ((e.compile name).run s) ((e.compile name).run s')) ∧
      (∀ source source', e.settings.Revises source source' →
        SameOutput ((e.compileSource source).run s) ((e.compileSource source').run s')) ∧
      ∀ origin source log chain, ((Chain.ofSource e.settings s.files origin source).run log).1 = .ok chain →
        ∀ id, chain.root ∉ id :: chain.tree.ancestors id →
          (∀ outer ∈ chain.tree.ancestors id, chain.tree.closedName? outer = none) →
          id ∉ chain.dispatched e.registry s.handlers := by
  refine ⟨sameOutput_compile handlers revised, fun _ _ => sameOutput_compileSource handlers revised, ?_⟩
  intro origin source log chain built id elsewhere outside dispatched
  rcases Chain.inPlay_of_dispatched built e.registry s.handlers id dispatched with root | ⟨outer, mem, closed⟩
  · exact elsewhere root
  · rw [outside outer mem] at closed
    cases closed

def cardSource (words : Text) : Text :=
  extending ['r'] ++ "<tpl:Wrap>".toList ++ words ++ defining ['a'] "kept".toList ++ "</tpl:Wrap>".toList

def cards (words : Text) : List (Text × Text) := [(['c'], cardSource words), (['r'], defining ['a'] "base".toList)]

def oldWords : Text := "old".toList

def newWords : Text := "new<tpl:Note>\x7b\x7btpl:v\x7d\x7d</tpl:Note>".toList

theorem revised_cards : librarySettings.Revised (libraryOf (cards oldWords)) (libraryOf (cards newWords)) := by
  constructor
  · intro dir _ l _
    by_cases card : l = [['c']]
    · subst card
      rfl
    · simp [FileSystem.kind?, FileSystem.get?, libraryOf, cards, List.find?_cons, Ne.symm card]
  · intro file source read
    by_cases card : file = [['c']]
    · subst card
      obtain rfl : cardSource oldWords = source := Except.ok.inj read
      refine ⟨cardSource newWords, rfl, .inr ⟨by decide +kernel, ?_⟩⟩
      apply Builder.Edited.of_take_drop 2 1 4 <;> decide +kernel
    · refine ⟨source, ?_, .inl rfl⟩
      rw [← read]
      simp [FileSystem.readAt, FileSystem.get?, libraryOf, cards, List.find?_cons, Ne.symm card]

theorem only_definitions_matter_cards :
    librarySettings.Revised (libraryOf (cards oldWords)) (libraryOf (cards newWords)) ∧
      SameOutput ((libraryEngine.compile ['c']).run ⟨libraryOf (cards oldWords), (), []⟩)
        ((libraryEngine.compile ['c']).run ⟨libraryOf (cards newWords), (), []⟩) ∧
      ((libraryEngine.compile ['c']).run ⟨libraryOf (cards oldWords), (), []⟩).1.toOption.map (·.output)
        = some "kept".toList ∧
      (chainIn (cards newWords) (cardSource newWords)).tree.kind? 3 = some (.block "Note".toList {} .closed) ∧
      3 ∉ (chainIn (cards newWords) (cardSource newWords)).dispatched libraryEngine.registry () := by
  let before : Session Unit := ⟨libraryOf (cards oldWords), (), []⟩
  let after : Session Unit := ⟨libraryOf (cards newWords), (), []⟩
  have revised : libraryEngine.settings.Revised before.files after.files := revised_cards
  have unchanged : libraryEngine.settings.Revised after.files after.files :=
    ⟨fun _ _ _ _ => rfl, fun _ source read => ⟨source, read, .inl rfl⟩⟩
  obtain ⟨compiled, -, -⟩ := @only_definitions_matter _ libraryEngine before after rfl revised
  obtain ⟨-, -, silent⟩ := @only_definitions_matter _ libraryEngine after after rfl unchanged
  refine ⟨revised_cards, compiled ['c'], by decide +kernel, by decide +kernel, ?_⟩
  apply silent none (cardSource newWords) [] _ (built_chainIn (by decide +kernel))
  · decide +kernel
  · decide +kernel

end Engine

end TagTemplate
