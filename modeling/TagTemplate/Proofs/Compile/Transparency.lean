/-
# Proofs.Compile.Transparency -- a definition that nothing overrides is no more than its body

Each name has one body, which is compiled where its definition stands: the cursor of the
name is at the start when a run comes there, since nobody else has used the name.  While
the body is compiled other names are touched, those of the definitions inside of it, and
no name behind it.  So a run over markup with definitions does what the markup does that
has the bodies in their places (`runsInline_of_spliced`).  The induction is on how the bodies are
spliced in; what it carries along is which names a run has touched (`Within`).

With `Tells` this is about tokens: those of a template that nests and takes no part in
inheritance are compiled to the same text as the ones without the tags of definitions,
and the handlers go through the same (`compile_build_withoutDefinitions`).
-/
import TagTemplate.Proofs.Compile.Recovery
import TagTemplate.Proofs.Tree.Splice

namespace TagTemplate

set_option autoImplicit false

variable {σ : Type}

theorem Markup.performAll_append (r : Registry σ) (ms ms' : List Markup) :
    performAll r (ms ++ ms') = do
      let text ← performAll r ms
      let rest ← performAll r ms'
      return text ++ rest := by
  induction ms with
  | nil => simp [performAll]
  | cons m ms ih =>
    simp only [List.cons_append, performAll, ih, bind_assoc, pure_bind]
    simp only [List.append_assoc]

/-! ## Bodies that are still to be compiled -/

/-- Each name has one body, which is not compiled yet and says what it should. -/
def BlockStack.Fresh (t : Tree) (s : BlockStack) (bodies : List (Text × List Markup)) : Prop :=
  ∀ b ∈ bodies, ∃ ids, s.slot b.1 = ⟨0, [.pending ids]⟩ ∧ ids.map t.markup = b.2

/-- Some names at most are touched, and no body is left to compile that was not before. -/
structure BlockStack.Within (names : List Text) (s s' : BlockStack) : Prop where
  slots : ∀ name ∉ names, s'.slot name = s.slot name
  pending : s'.pendingCount ≤ s.pendingCount

namespace BlockStack

variable {t : Tree} {s s' s'' : BlockStack}

theorem within_refl (names : List Text) (s : BlockStack) : Within names s s := ⟨fun _ _ => rfl, Nat.le_refl _⟩

theorem Within.trans {names names' : List Text} (one : Within names s s') (two : Within names' s' s'') :
    Within (names ++ names') s s'' := by
  refine ⟨fun name absent => ?_, Nat.le_trans two.pending one.pending⟩
  rw [List.mem_append, not_or] at absent
  rw [two.slots name absent.2, one.slots name absent.1]

/-- Bodies of names that were not touched are as they were. -/
theorem Fresh.within {bodies : List (Text × List Markup)} (fresh : s.Fresh t bodies) {names : List Text}
    (within : Within names s s') (apart : ∀ b ∈ bodies, b.1 ∉ names) : s'.Fresh t bodies := by
  intro b mem
  rw [within.slots b.1 (apart b mem)]
  exact fresh b mem

end BlockStack

/-- **What is drawn is fresh**: where names are distinct, each has its body on the stack. -/
theorem Tree.Drawn.fresh {t : Tree} {s : BlockStack} {k : Sketch} (drawn : t.Drawn s k)
    (cursor : ∀ name, (s.slot name).cursor = 0) {bodies : List (Text × List Markup)}
    (filed : k.bodies = bodiesOf bodies) (distinct : (bodies.map Prod.fst).Nodup) : s.Fresh t bodies := by
  rintro ⟨name, content⟩ mem
  have said := drawn.bodies name
  rw [filed, bodiesOf_of_mem distinct mem, List.map_singleton] at said
  obtain ⟨body, one, same⟩ := List.map_eq_singleton_iff.1 said
  cases body with
  | compiled output => cases (Prod.mk.inj same).1
  | pending ids =>
    refine ⟨ids, ?_, (Prod.mk.inj same).2⟩
    rw [← cursor name, ← one]

namespace Compiler

/-! ## Steps that do what a computation does -/

/-- From states in which some bodies are fresh, and at most so many are left to compile, a step gives the text of a
computation on the state of the handlers, does to that state what the computation does, and touches the names of the
bodies only. -/
def Inlines (t : Tree) (p : Nat) (bodies : List (Text × List Markup)) (step : Step σ Text)
    (computation : StateM σ Text) : Prop :=
  ∀ s, s.blocks.Fresh t bodies → s.blocks.pendingCount ≤ p →
    (step s).1 = (computation s.handlers).1 ∧ (step s).2.handlers = (computation s.handlers).2 ∧
      BlockStack.Within (bodies.map Prod.fst) s.blocks (step s).2.blocks

variable {t : Tree} {p : Nat} {bodies bodies' : List (Text × List Markup)}

/-- A step that performs a computation and leaves the stack alone. -/
theorem Performs.inlines {step : Step σ Text} {computation : StateM σ Text} (performs : Performs step computation)
    (kept : ∀ s, (step s).2.blocks = s.blocks) : Inlines t p [] step computation := by
  intro s _ _
  refine ⟨(performs s).1, (performs s).2, ?_⟩
  rw [kept]
  exact BlockStack.within_refl ..

theorem inlines_return (text : Text) : Inlines (σ := σ) t p [] (pure text) (pure text) :=
  (performs_return text).inlines fun _ => rfl

theorem blocks_dispatch (id : NodeId) (h : Option (StateM σ Text)) (missing : Event) (s : CompileState σ) :
    (dispatch id h missing s).2.blocks = s.blocks := by
  cases h <;> rfl

/-- Two steps one after the other, whose bodies have different names. -/
theorem inlines_bind {first : Step σ Text} {first' : StateM σ Text} {next : Text → Step σ Text}
    {next' : Text → StateM σ Text} (inlines : Inlines t p bodies first first')
    (inlines' : ∀ text, Inlines t p bodies' (next text) (next' text))
    (apart : ∀ b ∈ bodies', b.1 ∉ bodies.map Prod.fst) :
    Inlines t p (bodies ++ bodies') (first >>= next) (first' >>= next') := by
  intro s fresh bound
  obtain ⟨text, handlers, within⟩ := inlines s (fun b mem => fresh b (List.mem_append_left _ mem)) bound
  have fresh' := BlockStack.Fresh.within (fun b mem => fresh b (List.mem_append_right _ mem)) within apart
  obtain ⟨text', handlers', within'⟩ := inlines' (first s).1 (first s).2 fresh' (Nat.le_trans within.pending bound)
  rw [text, handlers] at text' handlers'
  rw [text] at within'
  refine ⟨?_, ?_, ?_⟩
  · show (next (first s).1 (first s).2).1 = _
    rw [text]
    exact text'
  · show (next (first s).1 (first s).2).2.handlers = _
    rw [text]
    exact handlers'
  · rw [List.map_append]
    show BlockStack.Within _ s.blocks (next (first s).1 (first s).2).2.blocks
    rw [text]
    exact within.trans within'

/-- **The body of a fresh name is compiled in its place.**  One body fewer is left to compile inside of it. -/
theorem inlines_resolveWith {keep : Retention} {compile : List Text → NodeId → Step σ Text} {active : List Text}
    {name : Text} {content : List Markup} {computation : StateM σ Text}
    (inner : ∀ fewer < p, ∀ ids, ids.map t.markup = content →
      Inlines t fewer bodies (concat (compile (name :: active)) ids) computation)
    (apart : name ∉ bodies.map Prod.fst) :
    Inlines t p (bodies ++ [(name, content)]) (resolveWith keep compile active name) computation := by
  intro s fresh bound
  obtain ⟨ids, slot, said⟩ := fresh (name, content) (List.mem_append_right _ (List.mem_singleton_self _))
  have cursor : (s.blocks.slot name).cursor = 0 := by rw [slot]
  have next : (s.blocks.slot name).bodies[0]? = some (.pending ids) := by rw [slot]; rfl
  have fewer := BlockStack.pendingCount_enter next
  have others (n : Text) (ne : n ≠ name) : (s.blocks.enter name 0).slot n = s.blocks.slot n :=
    BlockStack.slot_modify_ne _ _ ne
  have fresh' : (entered s name 0).blocks.Fresh t bodies := by
    intro b mem
    have ne : b.1 ≠ name := fun same => apart (same ▸ List.mem_map_of_mem mem)
    show ∃ ids, (s.blocks.enter name 0).slot b.1 = _ ∧ _
    rw [others b.1 ne]
    exact fresh b (List.mem_append_left _ mem)
  obtain ⟨text, handlers, within⟩ := inner (s.blocks.enter name 0).pendingCount (by omega) ids said
    (entered s name 0) fresh' (Nat.le_refl _)
  rw [resolveWith_of_pending cursor next]
  generalize concat (compile (name :: active)) ids (entered s name 0) = r at text handlers within ⊢
  have more := BlockStack.pendingCount_leave_le r.2.blocks name 0 (keep.body ids r.1)
  have pending : r.2.blocks.pendingCount ≤ (s.blocks.enter name 0).pendingCount := within.pending
  refine ⟨text, handlers, fun n absent => ?_, by dsimp only; omega⟩
  rw [List.map_append, List.mem_append, not_or] at absent
  have ne : n ≠ name := fun same => absent.2 (same ▸ List.mem_singleton_self _)
  show (r.2.blocks.leave name 0 _).slot n = _
  rw [BlockStack.leave, BlockStack.slot_modify_ne _ _ ne, within.slots n absent.1]
  exact others n ne

/-! ## Nodes that say spliced markup -/

/-- A node followed by the rest of a list, whose bodies have different names. -/
theorem inlines_cons {compile : NodeId → Step σ Text} {r : Registry σ} {id : NodeId} {ids : List NodeId}
    {plain plain' : List Markup} (first : Inlines t p bodies (compile id) (Markup.performAll r plain))
    (rest : Inlines t p bodies' (concat compile ids) (Markup.performAll r plain'))
    (apart : ∀ b ∈ bodies', b.1 ∉ bodies.map Prod.fst) :
    Inlines t p (bodies ++ bodies') (concat compile (id :: ids)) (Markup.performAll r (plain ++ plain')) := by
  rw [Markup.performAll_append]
  have rest' (text : Text) : Inlines t p bodies' (do let more ← concat compile ids; return text ++ more)
      (do let more ← Markup.performAll r plain'; return text ++ more) := by
    have both := inlines_bind rest (fun more => inlines_return (text ++ more)) nofun
    rwa [List.append_nil] at both
  exact inlines_bind first rest' apart

theorem performAll_singleton (r : Registry σ) (m : Markup) : Markup.performAll r [m] = m.perform r := by
  rw [Markup.performAll]
  simp [Markup.performAll]

section Nodes

variable {c : Compiler σ} {keep : Retention} {said content plain inner : List Markup} {m : Markup}
  {within : List (Text × List Markup)}

/-- Nodes that say `said` do what `plain` does with the bodies in their places, at any depth that is enough for the
bodies left to compile. -/
def RunsInline (c : Compiler σ) (keep : Retention) (said : List Markup) (bodies : List (Text × List Markup))
    (plain : List Markup) : Prop :=
  ∀ depth p active ids, ids.map c.tree.markup = said →
    (∀ id : Nat, id ∈ ids → p * (c.tree.size + 1) + (c.tree.size - id) < depth) →
    Inlines c.tree p bodies (concat (nodeWith keep c depth active) ids) (Markup.performAll c.registry plain)

/-- The same for one node that says `m`. -/
def NodeInline (c : Compiler σ) (keep : Retention) (m : Markup) (bodies : List (Text × List Markup))
    (plain : List Markup) : Prop :=
  ∀ depth p active, ∀ id : Nat, c.tree.markup id = m → p * (c.tree.size + 1) + (c.tree.size - id) < depth →
    Inlines c.tree p bodies (nodeWith keep c depth active id) (Markup.performAll c.registry plain)

theorem RunsInline.nil : RunsInline c keep [] [] [] := by
  intro depth p active ids said _
  obtain rfl := List.map_eq_nil_iff.1 said
  exact inlines_return []

theorem NodeInline.cons (here : NodeInline c keep m bodies plain) {plain' : List Markup}
    (rest : RunsInline c keep said bodies' plain') (apart : ∀ b ∈ bodies', b.1 ∉ bodies.map Prod.fst) :
    RunsInline c keep (m :: said) (bodies ++ bodies') (plain ++ plain') := by
  intro depth p active ids told deep
  obtain ⟨id, ids, rfl, first, others⟩ := List.map_eq_cons_iff.1 told
  have node := here depth p active id first (deep id (List.mem_cons_self ..))
  exact inlines_cons node (rest depth p active ids others fun i mem => deep i (List.mem_cons_of_mem _ mem)) apart

/-- A node that a run compiles where it stands. -/
theorem nodeInline_of_stepOf (ordered : c.tree.Ordered)
    (step : ∀ depth p active, ∀ id : Nat, ∀ ids, ids.map c.tree.markup = m.content →
      (∀ i : Nat, i ∈ ids → p * (c.tree.size + 1) + (c.tree.size - i) < depth) → p * (c.tree.size + 1) ≤ depth →
      Inlines c.tree p bodies
        (stepOf c.registry id m (concat (nodeWith keep c depth active) ids)
          (resolveWith keep (nodeWith keep c depth) active) (parentWith keep (nodeWith keep c depth) active))
        (Markup.performAll c.registry plain)) : NodeInline c keep m bodies plain := by
  intro depth p active id told deep
  cases depth with
  | zero => exact absurd deep (Nat.not_lt_zero _)
  | succ depth =>
    obtain ⟨ids, content, inside, eq⟩ := nodeWith_eq_stepOf ordered keep depth active id
    rw [eq, told]
    rw [told] at content
    refine step depth p active id ids content (fun i mem => ?_) (by omega)
    have after := inside i mem
    omega

theorem nodeInline_text (ordered : c.tree.Ordered) (x : Text) : NodeInline c keep (.text x) [] [.text x] := by
  refine nodeInline_of_stepOf ordered fun depth p active id ids _ _ _ => ?_
  rw [performAll_singleton]
  exact inlines_return x

theorem nodeInline_value (ordered : c.tree.Ordered) (tag : Text) (attributes : Attributes) (raw : Text) :
    NodeInline c keep (.value tag attributes raw) [] [.value tag attributes raw] := by
  refine nodeInline_of_stepOf ordered fun depth p active id ids _ _ _ => ?_
  rw [performAll_singleton]
  exact (performs_valueTag c.registry id tag attributes raw).inlines (blocks_dispatch _ _ _)

theorem nodeInline_block (ordered : c.tree.Ordered) (tag : Text) (attributes : Attributes)
    (inside : RunsInline c keep content within inner) :
    NodeInline c keep (.block tag attributes content) within [.block tag attributes inner] := by
  refine nodeInline_of_stepOf ordered fun depth p active id ids told deep _ => ?_
  rw [performAll_singleton]
  have around (text : Text) := (performs_blockTag c.registry id tag attributes text).inlines (t := c.tree) (p := p)
    (blocks_dispatch _ _ _)
  have both := inlines_bind (inside depth p active ids told deep) around nofun
  rwa [List.append_nil] at both

/-- The body of a definition is compiled with one body fewer left, so that there is room for all of the arena. -/
theorem nodeInline_definition (ordered : c.tree.Ordered) {name : Text} (inside : RunsInline c keep content within inner)
    (apart : name ∉ within.map Prod.fst) :
    NodeInline c keep (.definition name) (within ++ [(name, content)]) inner := by
  refine nodeInline_of_stepOf ordered fun depth p active id _ _ _ room => ?_
  refine inlines_resolveWith (fun fewer less ids told => ?_) apart
  refine inside depth fewer (name :: active) ids told fun i _ => ?_
  have enough := Nat.mul_le_mul_right (c.tree.size + 1) less
  rw [Nat.succ_mul] at enough
  omega

/-- The root compiles its children. -/
theorem nodeInline_group (ordered : c.tree.Ordered) (inside : RunsInline c keep content within inner) :
    NodeInline c keep (.group content) within inner :=
  nodeInline_of_stepOf ordered fun depth p active _ ids told deep _ => inside depth p active ids told deep

/-- **A run over markup with definitions does what the markup does that has their bodies in place**, if all names are
different. -/
theorem runsInline_of_spliced (ordered : c.tree.Ordered) (spliced : Spliced said bodies plain)
    (distinct : (bodies.map Prod.fst).Nodup) : RunsInline c keep said bodies plain := by
  have apart {one two : List (Text × List Markup)} (distinct : ((one ++ two).map Prod.fst).Nodup) :
      (one.map Prod.fst).Nodup ∧ (two.map Prod.fst).Nodup ∧ ∀ b ∈ two, b.1 ∉ one.map Prod.fst := by
    rw [List.map_append, List.nodup_append'] at distinct
    exact ⟨distinct.1, distinct.2.1, fun b mem known => distinct.2.2 known (List.mem_map_of_mem mem)⟩
  induction spliced with
  | nil => exact .nil
  | text x _ ih => exact (nodeInline_text ordered x).cons (ih distinct) nofun
  | value tag attributes raw _ ih => exact (nodeInline_value ordered tag attributes raw).cons (ih distinct) nofun
  | block tag attributes _ _ ih_inside ih =>
    obtain ⟨inner, outer, different⟩ := apart distinct
    exact (nodeInline_block ordered tag attributes (ih_inside inner)).cons (ih outer) different
  | @definition content inner said plain within bodies name _ _ ih_inside ih =>
    rw [List.append_cons] at distinct ⊢
    obtain ⟨around, outer, different⟩ := apart distinct
    obtain ⟨inner, _, unused⟩ := apart around
    exact (nodeInline_definition ordered (ih_inside inner) (unused _ (List.mem_singleton_self _))).cons (ih outer)
      different

end Nodes

end Compiler

/-! ## Tokens without the tags of definitions -/

/-- Tokens that nest and take no part in inheritance, in which each name is defined once at most. -/
structure Standalone (tokens : List Token) : Prop where
  balanced : Balanced tokens
  alone : ∀ t ∈ tokens, t.inherits = false
  distinct : (tokens.filterMap Token.defines?).Nodup

theorem standalone_iff (tokens : List Token) :
    Standalone tokens ↔ completes [] tokens = true ∧ (∀ t ∈ tokens, t.inherits = false) ∧
      (tokens.filterMap Token.defines?).Nodup := by
  rw [completes_nil_iff]
  exact ⟨fun h => ⟨h.balanced, h.alone, h.distinct⟩, fun h => ⟨h.1, h.2.1, h.2.2⟩⟩

instance (tokens : List Token) : Decidable (Standalone tokens) := decidable_of_iff _ (standalone_iff tokens).symm

/-- **What is built from tokens does what the tokens say with each body in the place of its definition.** -/
theorem Tells.compiled_build {tokens : List Token} {said plain : List Markup} {bodies : List (Text × List Markup)}
    (tells : Tells tokens said bodies plain) (distinct : (tokens.filterMap Token.defines?).Nodup) (source : Text)
    (r : Registry σ) (state : σ) :
    (Tree.build tokens source {} {}).compiled r state = (Markup.performAll r plain).run state := by
  have draws := (Builder.draws_start source).foldl_push tokens
  obtain ⟨next, sketched⟩ := tells.gains ⟨0, .root, []⟩ [] (fun _ => []) 1
  dsimp only at sketched
  rw [TagTemplate.compiled_build]
  rw [sketched] at draws
  generalize tokens.foldl Builder.push (Builder.start source {} {}) = b at draws
  have g := draws.sound.gathered
  have path : b.openPath = [0] := draws.path
  have root : b.root = 0 := List.mem_singleton.1 (path ▸ draws.sound.root_mem)
  have layer := draws.drawn.layers _ (List.mem_singleton_self _)
  have drawn : b.tree.markup 0 = .group said := by
    rw [Tree.markup_eq g.ordered, layer.kind, layer.said]
    rfl
  have names := tells.names.nodup_iff.2 distinct
  have fresh := draws.drawn.fresh g.cursor rfl names
  have inside : Compiler.RunsInline ⟨b.tree, r⟩ .text said bodies plain :=
    Compiler.runsInline_of_spliced g.ordered tells.spliced names
  have deep : b.blocks.pendingCount * (b.tree.size + 1) + (b.tree.size - 0)
      < (Compiler.mk b.tree r).depth b.blocks := by
    simp only [Compiler.depth, Nat.succ_mul]
    omega
  obtain ⟨text, handlers, -⟩ := Compiler.nodeInline_group (c := ⟨b.tree, r⟩) g.ordered inside _ _ [] 0 drawn deep
    { handlers := state, blocks := b.blocks } fresh (Nat.le_refl _)
  rw [Builder.compiled, root]
  exact Prod.ext text handlers

/-- **A definition that nothing overrides is no more than its body.**  Tokens that stand alone are compiled like the
same without the tags of definitions: to the same text, with the same state of the handlers after the same calls, and
both without a report. -/
theorem compile_build_withoutDefinitions {tokens : List Token} (standalone : Standalone tokens) (source source' : Text)
    (r : Registry σ) (state : σ) :
    (Tree.build tokens source {} {}).compiled r state
        = (Tree.build (withoutDefinitions tokens) source' {} {}).compiled r state ∧
      (Tree.build tokens source {} {}).traced r state
        = (Tree.build (withoutDefinitions tokens) source' {} {}).traced r state ∧
      (Tree.build tokens source {} {}).diagnostics = [] ∧
      (Tree.build (withoutDefinitions tokens) source' {} {}).diagnostics = [] := by
  obtain ⟨said, bodies, plain, tells⟩ := exists_tells standalone.balanced standalone.alone
  obtain ⟨compiled, traced, -⟩ := compile_build_eq_perform tells.nested source' {} {} r state
  refine ⟨?_, ?_, ?_, diagnostics_build_of_nested tells.nested ..⟩
  · exact (tells.compiled_build standalone.distinct source r state).trans compiled.symm
  · exact (tells.compiled_build standalone.distinct source r.recording (state, [])).trans traced.symm
  · exact (Tree.diagnostics_build tokens source {} {}).2.2.2 standalone.balanced

end TagTemplate
