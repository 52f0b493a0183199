/-
# Proofs.Compile.Recovery -- well-nested tokens mean what they say, and others what is left of them

Building tokens into an arena and compiling its root is the recursive meaning of the
markup they write, when they are well nested (`compile_build_eq_perform`): the same
text, the same state of the handlers and the same calls in the same order.

When they are not, faults are found and blocks are given up on the way, and the root
means what the tokens mean that are left of them (`compile_build_eq_erase`): those
without the closing tags that close nothing and the blocks that are never closed.

Both come from one fact about the root of what was built (`performs_root`): its
settled nodes say the markup of the tokens that are kept, and the block that may be
open behind them says nothing.
-/
import TagTemplate.Proofs.Tree.Recovery

namespace TagTemplate

set_option autoImplicit false

variable {σ : Type}

namespace Compiler

theorem concat_append (compile : NodeId → Step σ Text) (ids more : List NodeId) :
    concat compile (ids ++ more) = do
      let text ← concat compile ids
      let rest ← concat compile more
      return text ++ rest := by
  induction ids with
  | nil => simp [concat]
  | cons id ids ih =>
    simp only [List.cons_append, concat, ih, bind_assoc, pure_bind]
    simp only [List.append_assoc]

/-- Nodes at the end of a list that say nothing. -/
theorem performs_append {compile : NodeId → Step σ Text} {ids more : List NodeId} {computation : StateM σ Text}
    (performs : Performs (concat compile ids) computation) (silent : ∀ id ∈ more, compile id = pure []) :
    Performs (concat compile (ids ++ more)) computation := by
  have nothing : concat compile more = pure [] := by
    induction more with
    | nil => rfl
    | cons id more ih =>
      rw [concat, silent id (List.mem_cons_self ..), ih fun i mem => silent i (List.mem_cons_of_mem _ mem)]
      rfl
  rw [concat_append, nothing]
  simpa using performs

end Compiler

namespace Builder

/-! ## Compiling what was built -/

/-- The text of the root of what was built, and the state of the handlers after it. -/
def compiled (r : Registry σ) (b : Builder) (state : σ) : Text × σ :=
  let run := (Compiler.compile ⟨b.tree, r⟩ b.root).run { handlers := state, blocks := b.blocks }
  (run.1, run.2.handlers)

/-- The text of the root of what was built, the state of the handlers after it, and their calls. -/
def traced (r : Registry σ) (b : Builder) (state : σ) : Text × σ × List Call := b.compiled r.recording (state, [])

/-- **The root performs the markup of the tokens that are kept**, whatever the handlers are. -/
theorem performs_root {b : Builder} {e : Erasure} (tracks : b.Tracks e) :
    ∃ ms, Nested e.kept ms ∧ ∀ {σ : Type} (r : Registry σ) (state : σ),
      b.compiled r state = (Markup.performAll r ms).run state := by
  obtain ⟨kind, more, ⟨⟨done, ms, children, said, nested⟩, inside⟩, opened⟩ := tracks.outside nofun
  refine ⟨ms, nested, fun {σ} r state => ?_⟩
  let c : Compiler σ := ⟨b.tree, r⟩
  have room : ∃ depth, c.depth b.blocks = depth + 2 ∧ b.tree.size ≤ depth := by
    refine ⟨b.blocks.pendingCount * (b.tree.size + 1) + b.tree.size, ?_, Nat.le_add_left ..⟩
    show (b.blocks.pendingCount + 1) * (b.tree.size + 1) + 1 = _
    rw [Nat.add_mul]
    omega
  obtain ⟨depth, enough, le⟩ := room
  have deep : ∀ id ∈ done, c.tree.size - id < depth + 1 :=
    fun id _ => Nat.lt_succ_of_le (Nat.le_trans (Nat.sub_le ..) le)
  have settled : Compiler.Performs (Compiler.concat (Compiler.nodeWith .text c (depth + 1) []) done)
      (Markup.performAll r ms) := Compiler.performs_of_says [] said _ deep
  have silent : ∀ id ∈ more, Compiler.nodeWith .text c (depth + 1) [] id = pure [] := by
    intro id mem
    obtain ⟨tag, attributes, kind⟩ := opened id mem
    unfold Compiler.nodeWith
    rw [show c.tree.kind? id = _ from kind]
  have performs := Compiler.performs_append settled silent
  obtain ⟨text, handlers⟩ := performs { handlers := state, blocks := b.blocks }
  have root : (Compiler.compile c b.root).run { handlers := state, blocks := b.blocks }
      = Compiler.concat (Compiler.nodeWith .text c (depth + 1) []) (done ++ more)
          { handlers := state, blocks := b.blocks } := by
    show Compiler.nodeWith .text c (c.depth b.blocks) [] b.root _ = _
    rw [enough]
    unfold Compiler.nodeWith
    rw [show c.tree.kind? b.root = _ from kind, show c.tree.children b.root = _ from children]
  unfold compiled
  rw [root]
  exact Prod.ext text handlers

end Builder

/-- What was built is compiled as what was there before the blocks still open were reported. -/
theorem compiled_build (tokens : List Token) (source : Text) (tree : Tree) (blocks : BlockStack) (r : Registry σ)
    (state : σ) :
    (Tree.build tokens source tree blocks).compiled r state
      = (tokens.foldl Builder.push (Builder.start source tree blocks)).compiled r state := by
  obtain ⟨tree_eq, blocks_eq, root_eq⟩ := Builder.foldl_reportMissing _
    (tokens.foldl Builder.push (Builder.start source tree blocks))
  rw [Builder.compiled, Builder.compiled, Tree.build, Builder.finish, tree_eq, blocks_eq, root_eq]

/-- The markup of what is left of some tokens is what their root means. -/
theorem exists_markup_of_erase {tokens : List Token} (ordinary : ∀ t ∈ tokens, t.isReserved = false) (source : Text)
    (tree : Tree) (blocks : BlockStack) :
    ∃ ms, Nested (erase tokens) ms ∧ ∀ {σ : Type} (r : Registry σ) (state : σ),
      (Tree.build tokens source tree blocks).compiled r state = (Markup.performAll r ms).run state := by
  have tracks := Builder.tracks_foldl_push tokens ordinary _ _ (Builder.tracks_start source tree blocks)
  obtain ⟨ms, nested, performs⟩ := Builder.performs_root tracks
  exact ⟨ms, nested, fun r state => (compiled_build ..).trans (performs r state)⟩

/-- Well-nested tokens are built without a fault. -/
theorem diagnostics_build_of_nested {tokens : List Token} {ms : List Markup} (nested : Nested tokens ms)
    (source : Text) (tree : Tree) (blocks : BlockStack) : (Tree.build tokens source tree blocks).diagnostics = [] := by
  have start := Builder.tracks_start source tree blocks
  have tracks := Builder.tracks_foldl_push tokens nested.ordinary _ _ start
  rw [nested.foldl_push] at tracks
  -- No block is open at the end, so the innermost open node is the root.
  have path : (tokens.foldl Builder.push (Builder.start source tree blocks)).openPath.takeWhile
      (· != (tokens.foldl Builder.push (Builder.start source tree blocks)).root) = [] := by
    generalize tokens.foldl Builder.push (Builder.start source tree blocks) = b at tracks
    unfold Builder.Tracks at tracks
    generalize eq : Erasure.keep {} tokens = e at tracks
    cases e with
    | mk open_blocks kept =>
      cases open_blocks with
      | nil =>
        generalize current : b.current = id at tracks
        cases tracks with
        | root _ _ _ =>
          rw [Builder.openPath, current, List.takeWhile_cons_of_neg (by simp)]
      | cons _ _ => cases eq
  rw [Tree.build, Builder.finish, path]
  exact Builder.diagnostics_of_nested nested _ _ start

/-! ## Well-nested tokens -/

/-- **Building and compiling well-nested tokens is the recursive meaning of their markup**: the same text
and state of the handlers, and the same calls.  A tag with a handler is called once, after the tags in its
content. -/
theorem compile_build_eq_perform {tokens : List Token} {ms : List Markup} (nested : Nested tokens ms) (source : Text)
    (tree : Tree) (blocks : BlockStack) (r : Registry σ) (state : σ) :
    (Tree.build tokens source tree blocks).compiled r state = (Markup.performAll r ms).run state ∧
      (Tree.build tokens source tree blocks).traced r state = Markup.traced r ms state ∧
      ((Tree.build tokens source tree blocks).traced r state).2.2.map Call.toCallSite
        = (Markup.sitesOf ms).filter r.answers := by
  obtain ⟨ms', nested', performs⟩ := exists_markup_of_erase nested.ordinary source tree blocks
  rw [erase_of_nested nested] at nested'
  rw [nested'.unique nested] at performs
  have traced : (Tree.build tokens source tree blocks).traced r state = Markup.traced r ms state :=
    performs r.recording (state, [])
  refine ⟨performs r state, traced, ?_⟩
  rw [traced]
  exact Markup.calls_of_performAll r ms state

/-- Handlers of any tag that count their calls and print the count. -/
def countingRegistry : Registry Nat where
  unknownBlock := some fun tag _ content n => (tag ++ '(' :: content ++ [')'], n + 1)
  unknownValue := some fun tag _ _ n => (tag ++ Text.decimal n, n + 1)

/-- The tags `<tpl:A>`, `{{tpl:v}}` and `</tpl:A>`. -/
def tagA : Tag := ⟨['A'], .opening [] false, false, false⟩
def tagV : Tag := ⟨['v'], .value [], false, false⟩
def endA : Tag := ⟨['A'], .closing, false, false⟩

/-- A block with a text and a value in it, and a text behind it. -/
def nestedTokens : List Token :=
  [⟨.tag tagA, 0, 7⟩, ⟨.text ['b'], 7, 8⟩, ⟨.tag tagV, 8, 17⟩, ⟨.tag endA, 17, 25⟩, ⟨.text ['c'], 25, 26⟩]

def nestedMarkup : List Markup :=
  [.block ['A'] (Attributes.parse []) [.text ['b'], .value ['v'] (Attributes.parse []) []], .text ['c']]

theorem nested_nestedTokens : Nested nestedTokens nestedMarkup := by
  have opening : (⟨.tag tagA, 0, 7⟩ : Token).fragment = .tag tagA := rfl
  have value : (⟨.tag tagV, 8, 17⟩ : Token).fragment = .tag tagV := rfl
  have closing : (⟨.tag endA, 17, 25⟩ : Token).fragment = .tag endA := rfl
  have inner : (⟨.text ['b'], 7, 8⟩ : Token).fragment = .text ['b'] := rfl
  have outer : (⟨.text ['c'], 25, 26⟩ : Token).fragment = .text ['c'] := rfl
  exact .block rfl opening rfl closing rfl rfl (.text inner (.value rfl value rfl .nil)) (.text outer .nil)

theorem compile_build_nestedTokens :
    Nested nestedTokens nestedMarkup ∧
      (Tree.build nestedTokens [] {} {}).compiled countingRegistry 0
        = (Markup.performAll countingRegistry nestedMarkup).run 0 ∧
      (Tree.build nestedTokens [] {} {}).traced countingRegistry 0 = Markup.traced countingRegistry nestedMarkup 0 ∧
      ((Tree.build nestedTokens [] {} {}).traced countingRegistry 0).2.2.map Call.toCallSite
        = (Markup.sitesOf nestedMarkup).filter countingRegistry.answers :=
  ⟨nested_nestedTokens, compile_build_eq_perform nested_nestedTokens [] {} {} countingRegistry 0⟩

/-- The value is called before the block around it. -/
example : (Tree.build nestedTokens [] {} {}).traced countingRegistry 0
    = ("A(bv0)c".toList, 2, [⟨⟨.value, ['v'], {}⟩, []⟩, ⟨⟨.block, ['A'], {}⟩, "bv0".toList⟩]) := by
  decide +kernel

/-! ## Ill-nested tokens -/

/-- **Building and compiling tokens whatever their nesting is building and compiling what is left of them**,
which is built without a fault: the same text and state of the handlers, and the same calls. -/
theorem compile_build_eq_erase {tokens : List Token} (ordinary : ∀ t ∈ tokens, t.isReserved = false) (source : Text)
    (tree : Tree) (blocks : BlockStack) (r : Registry σ) (state : σ) :
    (Tree.build (erase tokens) source tree blocks).diagnostics = [] ∧
      (Tree.build tokens source tree blocks).compiled r state
        = (Tree.build (erase tokens) source tree blocks).compiled r state ∧
      (Tree.build tokens source tree blocks).traced r state
        = (Tree.build (erase tokens) source tree blocks).traced r state := by
  obtain ⟨ms, nested, performs⟩ := exists_markup_of_erase ordinary source tree blocks
  obtain ⟨ms', nested', performs'⟩ := exists_markup_of_erase nested.ordinary source tree blocks
  rw [erase_of_nested nested] at nested'
  rw [nested'.unique nested] at performs'
  exact ⟨diagnostics_build_of_nested nested source tree blocks, (performs r state).trans (performs' r state).symm,
    (performs r.recording (state, [])).trans (performs' r.recording (state, [])).symm⟩

/-- A block that is closed before the one inside of it, and a closing tag of no block. -/
def illNestedTokens : List Token := Token.tokenize "<tpl:A>b<tpl:B>lost</tpl:A></tpl:C>c".toList

theorem compile_build_illNestedTokens :
    (∀ t ∈ illNestedTokens, t.isReserved = false) ∧
      (Tree.build (erase illNestedTokens) [] {} {}).diagnostics = [] ∧
      (Tree.build illNestedTokens [] {} {}).compiled countingRegistry 0
        = (Tree.build (erase illNestedTokens) [] {} {}).compiled countingRegistry 0 ∧
      (Tree.build illNestedTokens [] {} {}).traced countingRegistry 0
        = (Tree.build (erase illNestedTokens) [] {} {}).traced countingRegistry 0 :=
  have ordinary : ∀ t ∈ illNestedTokens, t.isReserved = false := by decide +kernel
  ⟨ordinary, compile_build_eq_erase ordinary [] {} {} countingRegistry 0⟩

/-- What is left of them is the outer block and the last text. -/
example : (erase illNestedTokens).map (·.start) = [0, 7, 19, 35] := by decide +kernel

end TagTemplate
