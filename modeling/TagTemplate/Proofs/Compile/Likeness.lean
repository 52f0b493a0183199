/-
# Proofs.Compile.Likeness -- a run depends on what the arena says

Two arenas may say the same with different indices, offsets and unreachable nodes.  A
run of the compiler does not tell them apart: it does at a node what the markup of the
node asks for (`nodeWith_eq_stepOf`), and what it finds at the cursor of a name is a
body that says the same in both (`BlockStack.Like`).

So the two runs go side by side (`Alike`): whatever the handlers do, they are called in
the same states with the same tags, both runs give the same text, and both stacks still
say the same afterwards (`alike_nodeWith`).  The arenas differ in size and so do the
depths that the two runs allow themselves; each is enough for its own run.
-/
import TagTemplate.Proofs.Compile.Run

namespace TagTemplate

set_option autoImplicit false

/-! ## Stacks that say the same -/

def Body.said (t : Tree) (body : Body) : Bool × List Markup := (body.isPending, body.markup t)

theorem Body.said_kept {t t' : Tree} {ids ids' : List NodeId} (same : ids.map t.markup = ids'.map t'.markup)
    (keep : Retention) (output : Text) : (keep.body ids output).said t = (keep.body ids' output).said t' := by
  cases keep with
  | text => rfl
  | nodes => exact congrArg (Prod.mk true) same

namespace BlockStack

/-- Two block stacks, each with its arena, that say the same. -/
structure Like (t t' : Tree) (s s' : BlockStack) : Prop where
  cursor : ∀ name, (s.slot name).cursor = (s'.slot name).cursor
  bodies : ∀ name, (s.slot name).bodies.map (Body.said t) = (s'.slot name).bodies.map (Body.said t')

variable {t t' : Tree} {s s' : BlockStack}

/-- The same change to a slot of both. -/
theorem Like.modify (like : Like t t' s s') (name : Text) {f f' : Slot → Slot}
    (cursor : (f (s.slot name)).cursor = (f' (s'.slot name)).cursor)
    (bodies : (f (s.slot name)).bodies.map (Body.said t) = (f' (s'.slot name)).bodies.map (Body.said t')) :
    Like t t' (s.modify name f) (s'.modify name f') := by
  constructor <;> intro other <;> by_cases same : other = name
  · rw [same, slot_modify_same, slot_modify_same, cursor]
  · rw [slot_modify_ne _ _ same, slot_modify_ne _ _ same, like.cursor]
  · rw [same, slot_modify_same, slot_modify_same, bodies]
  · rw [slot_modify_ne _ _ same, slot_modify_ne _ _ same, like.bodies]

theorem Like.enter (like : Like t t' s s') (name : Text) (position : Nat) :
    Like t t' (s.enter name position) (s'.enter name position) := by
  apply like.modify name (congrArg (· + 1) (like.cursor name))
  rw [List.map_set, List.map_set, like.bodies]
  rfl

theorem Like.leave (like : Like t t' s s') (name : Text) (position : Nat) {body body' : Body}
    (same : body.said t = body'.said t') : Like t t' (s.leave name position body) (s'.leave name position body') := by
  apply like.modify name (congrArg (· - 1) (like.cursor name))
  rw [List.map_set, List.map_set, like.bodies, same]

/-- At the cursor of a name both have no body, the same text, or nodes that say the same. -/
theorem Like.next (like : Like t t' s s') (name : Text) :
    ((s.slot name).bodies[(s.slot name).cursor]? = none ∧ (s'.slot name).bodies[(s'.slot name).cursor]? = none) ∨
    (∃ output, (s.slot name).bodies[(s.slot name).cursor]? = some (.compiled output) ∧
      (s'.slot name).bodies[(s'.slot name).cursor]? = some (.compiled output)) ∨
    ∃ ids ids', (s.slot name).bodies[(s.slot name).cursor]? = some (.pending ids) ∧
      (s'.slot name).bodies[(s'.slot name).cursor]? = some (.pending ids') ∧
      ids.map t.markup = ids'.map t'.markup := by
  have said := congrArg (·[(s.slot name).cursor]?) (like.bodies name)
  simp only [List.getElem?_map] at said
  rw [like.cursor name] at said ⊢
  generalize (s.slot name).bodies[(s'.slot name).cursor]? = body at said ⊢
  generalize (s'.slot name).bodies[(s'.slot name).cursor]? = body' at said ⊢
  cases body with
  | none =>
    obtain rfl := Option.map_eq_none_iff.1 said.symm
    exact .inl ⟨rfl, rfl⟩
  | some body =>
    obtain ⟨body', rfl, same⟩ := Option.map_eq_some_iff.1 said.symm
    cases body with
    | pending ids =>
      cases body' with
      | pending ids' => exact .inr (.inr ⟨ids, ids', rfl, rfl, (Prod.mk.inj same).2.symm⟩)
      | compiled output => cases (Prod.mk.inj same).1
    | compiled output =>
      cases body' with
      | pending ids' => cases (Prod.mk.inj same).1
      | compiled output' =>
        cases (Prod.mk.inj same).2
        exact .inr (.inl ⟨output, rfl, rfl⟩)

end BlockStack

/-! ## What a node asks for -/

/-- What is compiled before the tag of a node, or in its place. -/
def Markup.content : Markup → List Markup
  | .block _ _ content | .group content => content
  | _ => []

namespace Compiler

variable {σ : Type}

/-- What a run does at a node that says `m`: `content` compiles its content, `body` the body of a name, and
`parent` the body above. -/
def stepOf (registry : Registry σ) (id : NodeId) (m : Markup) (content : Step σ Text) (body : Text → Step σ Text)
    (parent : Step σ Text) : Step σ Text :=
  match m with
  | .text t => return t
  | .value tag attributes raw =>
    dispatch id ((registry.valueHandler? tag).map fun h => h attributes raw) (.noValueHandler tag)
  | .parent => parent
  | .block tag attributes _ => do
    let text ← content
    dispatch id ((registry.blockHandler? tag).map fun h => h attributes text) (.noBlockHandler tag)
  | .definition name => body name
  | .group _ => content

/-- **A run does at a node what its markup asks for.**  The nodes of its content come further back in the arena. -/
theorem nodeWith_eq_stepOf {c : Compiler σ} (ordered : c.tree.Ordered) (keep : Retention) (depth : Nat)
    (active : List Text) (id : Nat) :
    ∃ ids, ids.map c.tree.markup = (c.tree.markup id).content ∧ (∀ i : Nat, i ∈ ids → id < i ∧ i < c.tree.size) ∧
      nodeWith keep c (depth + 1) active id
        = stepOf c.registry id (c.tree.markup id) (concat (nodeWith keep c depth active) ids)
            (resolveWith keep (nodeWith keep c depth) active) (parentWith keep (nodeWith keep c depth) active) := by
  have nothing : ∀ i ∈ ([] : List NodeId), id < i ∧ i < c.tree.size := fun i mem => absurd mem List.not_mem_nil
  rw [Tree.markup_eq ordered]
  unfold nodeWith
  cases c.tree.kind? id with
  | none => exact ⟨[], rfl, nothing, rfl⟩
  | some kind =>
    cases kind with
    | root => exact ⟨c.tree.children id, rfl, ordered id, rfl⟩
    | block tag attributes state =>
      cases state with
      | closed => exact ⟨c.tree.children id, rfl, ordered id, rfl⟩
      | opened => exact ⟨[], rfl, nothing, rfl⟩
      | abandoned => exact ⟨[], rfl, nothing, rfl⟩
    | definition name attributes state => cases state <;> exact ⟨[], rfl, nothing, rfl⟩
    | _ => exact ⟨[], rfl, nothing, rfl⟩

/-! ## Two runs side by side -/

/-- Two states with the handlers in one state and stacks that say the same. -/
structure StateLike (t t' : Tree) (s s' : CompileState σ) : Prop where
  handlers : s.handlers = s'.handlers
  blocks : s.blocks.Like t t' s'.blocks

/-- Two steps came from two states to the same text and to states that say the same, with no more bodies left to
compile. -/
structure Together (t t' : Tree) (s s' : CompileState σ) (r r' : Text × CompileState σ) : Prop where
  text : r.1 = r'.1
  state : StateLike t t' r.2 r'.2
  pending : r.2.blocks.pendingCount ≤ s.blocks.pendingCount
  pending' : r'.2.blocks.pendingCount ≤ s'.blocks.pendingCount

/-- Two steps do the same from all states that say the same, with at most so many bodies left to compile. -/
def Alike (t t' : Tree) (p p' : Nat) (step step' : Step σ Text) : Prop :=
  ∀ s s', StateLike t t' s s' → s.blocks.pendingCount ≤ p → s'.blocks.pendingCount ≤ p' →
    Together t t' s s' (step s) (step' s')

variable {t t' : Tree} {p p' : Nat}

theorem StateLike.together {s s' : CompileState σ} (like : StateLike t t' s s') (text : Text) :
    Together t t' s s' (text, s) (text, s') :=
  ⟨rfl, like, Nat.le_refl _, Nat.le_refl _⟩

theorem alike_return (text : Text) : Alike (σ := σ) t t' p p' (pure text) (pure text) :=
  fun _ _ like _ _ => like.together text

theorem alike_bind {first first' : Step σ Text} {next next' : Text → Step σ Text} (alike : Alike t t' p p' first first')
    (rest : ∀ text, Alike t t' p p' (next text) (next' text)) : Alike t t' p p' (first >>= next) (first' >>= next') := by
  intro s s' like bound bound'
  have one := alike s s' like bound bound'
  have two := rest (first s).1 (first s).2 (first' s').2 one.state (Nat.le_trans one.pending bound)
    (Nat.le_trans one.pending' bound')
  show Together t t' s s' (next (first s).1 (first s).2) (next' (first' s').1 (first' s').2)
  rw [← one.text]
  exact ⟨two.text, two.state, Nat.le_trans two.pending one.pending, Nat.le_trans two.pending' one.pending'⟩

theorem alike_dispatch (id id' : NodeId) (h : Option (StateM σ Text)) (missing : Event) :
    Alike t t' p p' (dispatch id h missing) (dispatch id' h missing) := by
  intro s s' like _ _
  cases h with
  | none => exact ⟨rfl, ⟨like.handlers, like.blocks⟩, Nat.le_refl _, Nat.le_refl _⟩
  | some step =>
    refine ⟨?_, ⟨?_, like.blocks⟩, Nat.le_refl _, Nat.le_refl _⟩
    · show (step s.handlers).1 = (step s'.handlers).1
      rw [like.handlers]
    · show (step s.handlers).2 = (step s'.handlers).2
      rw [like.handlers]

theorem alike_concat {compile compile' : NodeId → Step σ Text} (ids : List NodeId) :
    ∀ ids', ids.map t.markup = ids'.map t'.markup →
      (∀ i ∈ ids, ∀ i' ∈ ids', t.markup i = t'.markup i' → Alike t t' p p' (compile i) (compile' i')) →
      Alike t t' p p' (concat compile ids) (concat compile' ids') := by
  induction ids with
  | nil =>
    intro ids' same _
    obtain rfl := List.map_eq_nil_iff.1 same.symm
    exact alike_return []
  | cons id ids ih =>
    intro ids' same each
    obtain ⟨id', ids', rfl, here, tail⟩ := List.map_eq_cons_iff.1 same.symm
    refine alike_bind (each id (List.mem_cons_self ..) id' (List.mem_cons_self ..) here.symm) fun text => ?_
    refine alike_bind (ih ids' tail.symm ?_) fun rest => alike_return (text ++ rest)
    exact fun i mem i' mem' => each i (List.mem_cons_of_mem _ mem) i' (List.mem_cons_of_mem _ mem')

/-- A body that is compiled in one run is compiled in the other; one fewer is left inside of it. -/
theorem alike_resolveWith {keep : Retention} {compile compile' : List Text → NodeId → Step σ Text}
    {active : List Text} {name : Text}
    (inner : ∀ fewer < p, ∀ fewer' < p', ∀ ids ids', ids.map t.markup = ids'.map t'.markup →
      Alike t t' fewer fewer' (concat (compile (name :: active)) ids) (concat (compile' (name :: active)) ids')) :
    Alike t t' p p' (resolveWith keep compile active name) (resolveWith keep compile' active name) := by
  intro s s' like bound bound'
  have cursor := like.blocks.cursor name
  rcases like.blocks.next name with ⟨here, here'⟩ | ⟨output, here, here'⟩ | ⟨ids, ids', here, here', same⟩
  · rw [resolveWith_of_none here, resolveWith_of_none here']
    exact like.together []
  · rw [resolveWith_of_compiled here, resolveWith_of_compiled here']
    exact like.together output
  · have fewer := BlockStack.pendingCount_enter here
    have fewer' := BlockStack.pendingCount_enter here'
    rw [resolveWith_of_pending rfl here, resolveWith_of_pending rfl here']
    have inside := like.blocks.enter name (s.blocks.slot name).cursor
    have run := inner (s.blocks.enter name (s.blocks.slot name).cursor).pendingCount (by omega)
      (s'.blocks.enter name (s'.blocks.slot name).cursor).pendingCount (by omega) ids ids' same
      (entered s name (s.blocks.slot name).cursor) (entered s' name (s'.blocks.slot name).cursor)
      ⟨like.handlers, cursor ▸ inside⟩ (Nat.le_refl _) (Nat.le_refl _)
    generalize concat (compile (name :: active)) ids (entered s name (s.blocks.slot name).cursor) = r at run ⊢
    generalize concat (compile' (name :: active)) ids' (entered s' name (s'.blocks.slot name).cursor) = r' at run ⊢
    have kept := Body.said_kept same keep r.1
    have more := BlockStack.pendingCount_leave_le r.2.blocks name (s.blocks.slot name).cursor (keep.body ids r.1)
    have more' := BlockStack.pendingCount_leave_le r'.2.blocks name (s'.blocks.slot name).cursor (keep.body ids' r'.1)
    have pending := run.pending
    have pending' := run.pending'
    simp only [entered] at pending pending'
    refine ⟨run.text, ⟨run.state.handlers, ?_⟩, by dsimp only; omega, by dsimp only; omega⟩
    dsimp only
    rw [← run.text, ← cursor]
    exact run.state.blocks.leave name _ kept

/-- **Two nodes that say the same do the same**, at any depths that are enough for the bodies left to compile. -/
theorem alike_nodeWith {c c' : Compiler σ} (ordered : c.tree.Ordered) (ordered' : c'.tree.Ordered)
    (registry : c'.registry = c.registry) (keep : Retention) (depth : Nat) :
    ∀ depth' p p' active id id', c.tree.markup id = c'.tree.markup id' →
      p * (c.tree.size + 1) + (c.tree.size - id) < depth → p' * (c'.tree.size + 1) + (c'.tree.size - id') < depth' →
      Alike c.tree c'.tree p p' (nodeWith keep c depth active id) (nodeWith keep c' depth' active id') := by
  induction depth with
  | zero => exact fun _ _ _ _ _ _ _ deep => absurd deep (Nat.not_lt_zero _)
  | succ depth ih =>
    intro depth' p p' active id id' same deep deep'
    cases depth' with
    | zero => exact absurd deep' (Nat.not_lt_zero _)
    | succ depth' =>
      obtain ⟨ids, said, inside, eq⟩ := nodeWith_eq_stepOf ordered keep depth active id
      obtain ⟨ids', said', inside', eq'⟩ := nodeWith_eq_stepOf ordered' keep depth' active id'
      have content : Alike c.tree c'.tree p p' (concat (nodeWith keep c depth active) ids)
          (concat (nodeWith keep c' depth' active) ids') := by
        refine alike_concat ids ids' (by rw [said, said', same]) fun i mem i' mem' same => ?_
        have after := inside i mem
        have after' := inside' i' mem'
        exact ih depth' p p' active i i' same (by omega) (by omega)
      have body : ∀ name, Alike c.tree c'.tree p p' (resolveWith keep (nodeWith keep c depth) active name)
          (resolveWith keep (nodeWith keep c' depth') active name) := by
        intro name
        refine alike_resolveWith fun fewer less fewer' less' ids ids' same => ?_
        refine alike_concat ids ids' same fun i _ i' _ same => ?_
        have room := Nat.mul_le_mul_right (c.tree.size + 1) less
        have room' := Nat.mul_le_mul_right (c'.tree.size + 1) less'
        rw [Nat.succ_mul] at room room'
        exact ih depth' fewer fewer' (name :: active) i i' same (by omega) (by omega)
      rw [eq, eq', registry, ← same]
      cases c.tree.markup id with
      | text t => exact alike_return t
      | value tag attributes raw => exact alike_dispatch id id' _ _
      | parent =>
        cases active with
        | nil => exact alike_return []
        | cons name active => exact body name
      | block tag attributes inner => exact alike_bind content fun text => alike_dispatch id id' _ _
      | definition name => exact body name
      | group inner => exact content

/-- **A whole run depends on what the arena says alone.**  From nodes that say the same, with block stacks that do,
both runs give the same text and leave the handlers in the same state. -/
theorem compileWith_like {c c' : Compiler σ} (ordered : c.tree.Ordered) (ordered' : c'.tree.Ordered)
    (registry : c'.registry = c.registry) (keep : Retention) {id id' : NodeId}
    (same : c.tree.markup id = c'.tree.markup id') {s s' : CompileState σ} (like : StateLike c.tree c'.tree s s') :
    (compileWith keep c id s).1 = (compileWith keep c' id' s').1 ∧
      (compileWith keep c id s).2.handlers = (compileWith keep c' id' s').2.handlers := by
  have deep : s.blocks.pendingCount * (c.tree.size + 1) + (c.tree.size - id) < c.depth s.blocks := by
    rw [depth, Nat.add_mul]
    omega
  have deep' : s'.blocks.pendingCount * (c'.tree.size + 1) + (c'.tree.size - id') < c'.depth s'.blocks := by
    rw [depth, Nat.add_mul]
    omega
  have run := alike_nodeWith ordered ordered' registry keep _ _ _ _ [] id id' same deep deep' s s' like
    (Nat.le_refl _) (Nat.le_refl _)
  exact ⟨run.text, run.state.handlers⟩

end Compiler

end TagTemplate
