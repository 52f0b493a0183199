/-
# Proofs.Compile.Draft -- arenas and block stacks, whatever is done to them

Building a template keeps arena and block stack in order.  They can also be changed by
hand, in any way (`Draft.Edits`): nodes are added below any node, blocks get any state,
nodes lose their children, and any nodes at all become a body of a name, such as the
same node twice or the node that a definition stands in.  In between templates are
built, and nodes and names are compiled (`Draft.Changes`).

What is left in every such draft (`Coherent`) is that parents come before children, that
the nodes of bodies are in the arena, and that no body is being compiled.  Building a
template is a series of edits (`edited_build`), so there is nothing to show for it, and
a run of the compiler advances the block stack.

That much is enough for a compiler: whatever it is asked for, it comes to an end with
nothing missing on the way, and leaves every cursor where it was (`compiling_ends`).
-/
import Mathlib.Logic.Relation
import TagTemplate.Proofs.Compile.Evaluation
import TagTemplate.Proofs.Compile.Output

namespace TagTemplate

set_option autoImplicit false

open Relation (ReflTransGen)

/-- An arena, and a block stack whose bodies consist of its nodes. -/
structure Draft where
  tree : Tree := {}
  blocks : BlockStack := {}

namespace Draft

/-! ## What can be done to a draft -/

inductive Edits : Draft → Draft → Prop where
  | addRoot (d : Draft) : Edits d { d with tree := d.tree.addRoot }
  | append (d : Draft) {parent : NodeId} (there : parent < d.tree.size) (kind : NodeKind) (offset : Nat) :
      Edits d { d with tree := d.tree.append parent kind offset }
  | setState (d : Draft) {id : NodeId} (there : id < d.tree.size) (state : BlockState) :
      Edits d { d with tree := d.tree.setState id state }
  | takeChildren (d : Draft) {id : NodeId} (there : id < d.tree.size) :
      Edits d { d with tree := d.tree.clearChildren id }
  | pushBody (d : Draft) (name : Text) {ids : List NodeId} (there : ∀ id ∈ ids, id < d.tree.size) :
      Edits d { d with blocks := d.blocks.push name ids }

/-- The draft that a template is built onto, from its tokens and its prepared source. -/
def build (d : Draft) (tokens : List Token) (source : Text) : Draft :=
  ⟨(Tree.build tokens source d.tree d.blocks).tree, (Tree.build tokens source d.tree d.blocks).blocks⟩

variable {σ : Type}

def compiler (d : Draft) (registry : Registry σ) : Compiler σ := ⟨d.tree, registry⟩

def start (d : Draft) (handlers : σ) : CompileState σ := { handlers, blocks := d.blocks }

/-- One change: an edit, a template, or what a new compiler with any handlers is asked for. -/
inductive Changes : Draft → Draft → Prop where
  | edit {d d' : Draft} (edits : d.Edits d') : Changes d d'
  | build (d : Draft) (tokens : List Token) (source : Text) : Changes d (d.build tokens source)
  | compile (d : Draft) {σ : Type} (registry : Registry σ) (handlers : σ) {id : NodeId} (there : id < d.tree.size) :
      Changes d { d with blocks := ((d.compiler registry).compile id (d.start handlers)).2.blocks }
  | resolve (d : Draft) {σ : Type} (registry : Registry σ) (handlers : σ) (name : Text) :
      Changes d { d with blocks := ((d.compiler registry).resolve name (d.start handlers)).2.blocks }
  | parent (d : Draft) {σ : Type} (registry : Registry σ) (handlers : σ) :
      Changes d { d with blocks := ((d.compiler registry).parent (d.start handlers)).2.blocks }

/-- A draft that some changes lead to, from an empty one. -/
def Reached (d : Draft) : Prop := ReflTransGen Changes {} d

/-! ## Coherence -/

/-- What a compiler relies on. -/
structure Coherent (d : Draft) : Prop where
  ordered : d.tree.Ordered
  rising : d.tree.Rising
  inside : ∀ name ids, .pending ids ∈ (d.blocks.slot name).bodies → ∀ id ∈ ids, id < d.tree.size
  cursor : ∀ name, (d.blocks.slot name).cursor = 0

theorem coherent_empty : Coherent {} where
  ordered _ _ mem := nomatch mem
  rising i _ parent := absurd (Tree.lt_size_of_parent? parent) (Nat.not_lt_zero i)
  inside _ _ mem := nomatch mem
  cursor _ := rfl

variable {d d' : Draft}

theorem size_le_of_edits (edits : d.Edits d') : d.tree.size ≤ d'.tree.size := by
  cases edits with
  | addRoot => exact Nat.le_of_lt (Nat.lt_of_lt_of_eq (Nat.lt_succ_self _) (Tree.size_addRoot _).symm)
  | append => exact Nat.le_of_lt (Nat.lt_of_lt_of_eq (Nat.lt_succ_self _) (Tree.size_append ..).symm)
  | setState => exact Nat.le_of_eq (Tree.size_setState ..).symm
  | takeChildren => exact Nat.le_of_eq (Tree.size_clearChildren ..).symm
  | pushBody => exact Nat.le_refl _

theorem size_le_of_edited (edited : ReflTransGen Edits d d') : d.tree.size ≤ d'.tree.size := by
  induction edited with
  | refl => exact Nat.le_refl _
  | tail _ edits ih => exact Nat.le_trans ih (size_le_of_edits edits)

/-- Another arena with as many nodes, which are below others only where they were. -/
theorem Coherent.of_tree (coherent : d.Coherent) {t : Tree} (size : d.tree.size ≤ t.size)
    (children : ∀ id child, child ∈ t.children id → child ∈ d.tree.children id)
    (parent : ∀ id, t.parent? id = d.tree.parent? id) : Coherent { d with tree := t } where
  ordered id child mem := by
    obtain ⟨after, there⟩ := coherent.ordered id child (children id child mem)
    exact ⟨after, Nat.lt_of_lt_of_le there size⟩
  rising i p eq := coherent.rising i p ((parent i).symm.trans eq)
  inside name ids mem id id_mem := Nat.lt_of_lt_of_le (coherent.inside name ids mem id id_mem) size
  cursor := coherent.cursor

theorem Coherent.append (coherent : d.Coherent) {parent : Nat} (there : parent < d.tree.size) (kind : NodeKind)
    (offset : Nat) : Coherent { d with tree := d.tree.append parent kind offset } where
  ordered id child mem := by
    have size : d.tree.size < (d.tree.append parent kind offset).size := by
      rw [Tree.size_append]
      exact Nat.lt_succ_self _
    rw [Tree.children_append there] at mem
    split at mem
    · rename_i same
      rcases List.mem_append.1 mem with mem | mem
      · exact ⟨(coherent.ordered id child mem).1, Nat.lt_trans (coherent.ordered id child mem).2 size⟩
      · rw [List.mem_singleton.1 mem, same]
        exact ⟨there, size⟩
    · exact ⟨(coherent.ordered id child mem).1, Nat.lt_trans (coherent.ordered id child mem).2 size⟩
  rising := Tree.Gathered.rising_append offset coherent.rising there
  inside name ids mem id id_mem := by
    rw [Tree.size_append]
    exact Nat.lt_succ_of_lt (coherent.inside name ids mem id id_mem)
  cursor := coherent.cursor

theorem Coherent.pushBody (coherent : d.Coherent) (name : Text) {ids : List NodeId}
    (there : ∀ id ∈ ids, id < d.tree.size) : Coherent { d with blocks := d.blocks.push name ids } where
  ordered := coherent.ordered
  rising := coherent.rising
  inside other ids' mem := by
    by_cases same : other = name
    · subst same
      simp only [BlockStack.push, BlockStack.slot_modify_same] at mem
      rcases List.mem_append.1 mem with mem | mem
      · exact coherent.inside other ids' mem
      · cases List.mem_singleton.1 mem
        exact there
    · simp only [BlockStack.push, BlockStack.slot_modify_ne _ _ same] at mem
      exact coherent.inside other ids' mem
  cursor other := by
    by_cases same : other = name
    · subst same
      simp only [BlockStack.push, BlockStack.slot_modify_same]
      exact coherent.cursor other
    · simp only [BlockStack.push, BlockStack.slot_modify_ne _ _ same]
      exact coherent.cursor other

theorem Coherent.edit (coherent : d.Coherent) (edits : d.Edits d') : d'.Coherent := by
  cases edits with
  | addRoot =>
    refine coherent.of_tree ?_ (fun id child mem => ?_) (Tree.parent?_addRoot _)
    · rw [Tree.size_addRoot]
      exact Nat.le_succ _
    · rwa [Tree.children_addRoot] at mem
  | append there kind offset => exact coherent.append there kind offset
  | setState there state =>
    refine coherent.of_tree ?_ (fun id child mem => ?_) (Tree.parent?_setState _ _ _)
    · rw [Tree.size_setState]
    · rwa [Tree.children_setState] at mem
  | takeChildren there =>
    refine coherent.of_tree ?_ (fun id child mem => ?_) (Tree.parent?_clearChildren _ _)
    · rw [Tree.size_clearChildren]
    · rw [Tree.children_clearChildren] at mem
      split at mem
      · cases mem
      · exact mem
  | pushBody name there => exact coherent.pushBody name there

theorem Coherent.edited (coherent : d.Coherent) (edited : ReflTransGen Edits d d') : d'.Coherent := by
  induction edited with
  | refl => exact coherent
  | tail _ edits ih => exact ih.edit edits

/-- A run of a compiler leaves a draft coherent. -/
theorem Coherent.advance (coherent : d.Coherent) {blocks : BlockStack} (advances : d.blocks.Advances blocks) :
    Coherent { d with blocks } where
  ordered := coherent.ordered
  rising := coherent.rising
  inside name ids mem := by
    obtain ⟨level, found⟩ := List.mem_iff_getElem?.1 mem
    exact coherent.inside name ids (List.mem_of_getElem? (advances.pending name level ids found))
  cursor name := (advances.cursor name).trans (coherent.cursor name)

end Draft

/-! ## Templates are built by edits -/

namespace Builder

variable {b b' : Builder}

def draft (b : Builder) : Draft := ⟨b.tree, b.blocks⟩

/-- A coherent draft, with the root and the innermost open block in it. -/
structure Placed (b : Builder) : Prop where
  coherent : b.draft.Coherent
  root : b.root < b.tree.size
  current : b.current < b.tree.size

/-- Some edits, after which the innermost open block is in the arena. -/
structure Proceeds (b b' : Builder) : Prop where
  edited : ReflTransGen Draft.Edits b.draft b'.draft
  root : b'.root = b.root
  current : b'.current < b'.tree.size

theorem Placed.proceed (placed : b.Placed) (proceeds : b.Proceeds b') : b'.Placed where
  coherent := placed.coherent.edited proceeds.edited
  root := by
    rw [proceeds.root]
    exact Nat.lt_of_lt_of_le placed.root (Draft.size_le_of_edited proceeds.edited)
  current := proceeds.current

theorem proceeds_add (placed : b.Placed) (kind : NodeKind) (offset : Nat) : b.Proceeds (b.add kind offset) where
  edited := .single (.append b.draft placed.current kind offset)
  root := rfl
  current := Nat.lt_of_lt_of_le placed.current (Draft.size_le_of_edits (.append b.draft placed.current kind offset))

/-- Closing a definition pushes its children as a body and takes them from it. -/
theorem edited_close (coherent : b.draft.Coherent) {id : NodeId} (there : id < b.tree.size) :
    ReflTransGen Draft.Edits b.draft (b.close id).draft := by
  have closed : b.draft.Edits ⟨b.tree.setState id .closed, b.blocks⟩ := .setState b.draft there .closed
  have there' : id < (b.tree.setState id .closed).size := by rwa [Tree.size_setState]
  unfold close
  dsimp only
  split
  · rename_i name attributes state kind
    have pushed : Draft.Edits ⟨b.tree.setState id .closed, b.blocks⟩
        ⟨b.tree.setState id .closed, b.blocks.push name ((b.tree.setState id .closed).children id)⟩ :=
      .pushBody _ name fun child mem => ((coherent.edit closed).ordered id child mem).2
    exact .tail (.tail (.single closed) pushed) (.takeChildren _ there')
  · exact .single closed

theorem edited_foldl_abandon (ids : List NodeId) : ∀ b : Builder, (∀ id ∈ ids, id < b.tree.size) →
    ReflTransGen Draft.Edits b.draft (ids.foldl abandon b).draft ∧ Frame b (ids.foldl abandon b) := by
  induction ids with
  | nil => exact fun b _ => ⟨.refl, .refl b⟩
  | cons id ids ih =>
    intro b there
    have given_up : b.draft.Edits (b.abandon id).draft := .setState b.draft (there id (List.mem_cons_self ..)) .abandoned
    obtain ⟨edited, frame⟩ := ih (b.abandon id) fun i mem =>
      Nat.lt_of_lt_of_le (there i (List.mem_cons_of_mem _ mem)) (Draft.size_le_of_edits given_up)
    exact ⟨.head given_up edited, (frame_abandon b id).trans frame⟩

theorem lt_size_of_mem_openPath (placed : b.Placed) {id : Nat} (mem : id ∈ b.openPath) : id < b.tree.size := by
  rcases List.mem_cons.1 mem with rfl | mem
  · exact placed.current
  · exact Nat.lt_trans (Tree.lt_of_mem_ancestors mem) placed.current

/-- After some edits the innermost open block can be any node. -/
theorem proceeds_moveTo (edited : ReflTransGen Draft.Edits b.draft b'.draft) (root : b'.root = b.root) {id : NodeId}
    (there : id < b'.tree.size) : b.Proceeds { b' with current := id } :=
  ⟨edited, root, there⟩

theorem proceeds_openBlock (placed : b.Placed) (tag : Tag) (selfClosing : Bool) (offset : Nat) :
    b.Proceeds (b.openBlock tag selfClosing offset) := by
  have added := proceeds_add placed (blockKind tag) offset
  have there : b.tree.size < (b.add (blockKind tag) offset).tree.size := by
    show b.tree.size < (b.tree.append b.current (blockKind tag) offset).size
    rw [Tree.size_append]
    exact Nat.lt_succ_self _
  cases selfClosing with
  | true =>
    show b.Proceeds ((b.add (blockKind tag) offset).close b.tree.size)
    have closed := edited_close (placed.proceed added).coherent there
    have frame := frame_close (b.add (blockKind tag) offset) b.tree.size
    refine ⟨added.edited.trans closed, frame.root.trans added.root, ?_⟩
    rw [frame.current]
    exact Nat.lt_of_lt_of_le added.current (Draft.size_le_of_edited closed)
  | false => exact proceeds_moveTo added.edited added.root there

theorem proceeds_closeBlock (placed : b.Placed) (name : Text) (offset : Nat) :
    b.Proceeds (b.closeBlock name offset) := by
  unfold closeBlock
  split
  · exact ⟨.refl, rfl, placed.current⟩
  · rename_i matched rest found
    have matched_mem : matched ∈ b.openPath :=
      (List.dropWhile_sublist _).subset (found ▸ List.mem_cons_self ..)
    have there := lt_size_of_mem_openPath placed matched_mem
    obtain ⟨given_up, frame⟩ := edited_foldl_abandon (b.openPath.takeWhile (!b.closedBy name ·)) b fun id mem =>
      lt_size_of_mem_openPath placed ((List.takeWhile_sublist _).subset mem)
    have coherent := placed.coherent.edited given_up
    have closed := edited_close coherent (Nat.lt_of_lt_of_le there (Draft.size_le_of_edited given_up))
    have frame' := frame.trans (frame_close _ matched)
    have size := Nat.le_trans (Draft.size_le_of_edited given_up) (Draft.size_le_of_edited closed)
    refine proceeds_moveTo (given_up.trans closed) frame'.root ?_
    cases parent : ((b.openPath.takeWhile (!b.closedBy name ·)).foldl abandon b |>.close matched).tree.parent?
      matched with
    | none =>
      rw [Option.getD_none, frame'.root]
      exact Nat.lt_of_lt_of_le placed.root size
    | some outer =>
      have above := (coherent.edited closed).rising matched outer parent
      exact Nat.lt_of_lt_of_le (Nat.lt_trans above there) size

/-- **Every token makes some edits.** -/
theorem proceeds_push (placed : b.Placed) (t : Token) : b.Proceeds (b.push t) := by
  have pushed := pushed_push b t
  generalize b.push t = b' at pushed ⊢
  cases pushed with
  | leaf _ _ _ => exact proceeds_add placed _ _
  | extending _ => exact ⟨.refl, rfl, placed.current⟩
  | opening _ _ => exact proceeds_openBlock placed ..
  | closing _ _ => exact proceeds_closeBlock placed ..

theorem edited_foldl_push (tokens : List Token) : ∀ b : Builder, b.Placed →
    ReflTransGen Draft.Edits b.draft (tokens.foldl push b).draft := by
  induction tokens with
  | nil => exact fun _ _ => .refl
  | cons t tokens ih =>
    intro b placed
    have proceeds := proceeds_push placed t
    exact proceeds.edited.trans (ih (b.push t) (placed.proceed proceeds))

end Builder

namespace Draft

variable {d d' : Draft}

/-- **Building a template is a series of edits.** -/
theorem edited_build (coherent : d.Coherent) (tokens : List Token) (source : Text) :
    ReflTransGen Edits d (d.build tokens source) := by
  have rooted : d.Edits (Builder.start source d.tree d.blocks).draft := .addRoot d
  have there : d.tree.size < d.tree.addRoot.size := by
    rw [Tree.size_addRoot]
    exact Nat.lt_succ_self _
  have placed : (Builder.start source d.tree d.blocks).Placed := ⟨coherent.edit rooted, there, there⟩
  -- What is reported at the end changes neither arena nor block stack.
  obtain ⟨tree, blocks, -⟩ := Builder.foldl_reportMissing _
    (tokens.foldl Builder.push (Builder.start source d.tree d.blocks))
  have built : d.build tokens source = (tokens.foldl Builder.push (Builder.start source d.tree d.blocks)).draft := by
    rw [build, Tree.build, Builder.finish, tree, blocks]
    rfl
  rw [built]
  exact .head rooted (Builder.edited_foldl_push tokens _ placed)

/-- Whatever a compiler is asked for, it advances the block stack. -/
theorem advances_of_changes (coherent : d.Coherent) (changes : d.Changes d') :
    ReflTransGen Edits d d' ∨ (d'.tree = d.tree ∧ d.blocks.Advances d'.blocks) := by
  cases changes with
  | edit edits => exact .inl (.single edits)
  | build tokens source => exact .inl (edited_build coherent tokens source)
  | compile registry handlers there => exact .inr ⟨rfl, Compiler.advancing_compile _ _ (d.start handlers)⟩
  | resolve registry handlers name => exact .inr ⟨rfl, Compiler.advancing_resolve _ name (d.start handlers)⟩
  | parent registry handlers => exact .inr ⟨rfl, .refl d.blocks⟩

theorem Coherent.change (coherent : d.Coherent) (changes : d.Changes d') : d'.Coherent := by
  rcases advances_of_changes coherent changes with edited | ⟨same, advances⟩
  · exact coherent.edited edited
  · obtain ⟨tree, blocks⟩ := d'
    obtain rfl : tree = d.tree := same
    exact coherent.advance advances

theorem Coherent.changed (coherent : d.Coherent) (changed : ReflTransGen Changes d d') : d'.Coherent := by
  induction changed with
  | refl => exact coherent
  | tail _ changes ih => exact ih.change changes

/-- **Every draft is coherent.** -/
theorem Reached.coherent (reached : d.Reached) : d.Coherent := coherent_empty.changed reached

end Draft

/-! ## Compiling a draft -/

namespace Compiler

variable {σ : Type}

/-- A new compiler that is asked for something comes to an end: there is a derivation of its result and of no other
one, and the cursors are where they were. -/
structure Ends (c : Compiler σ) (s : CompileState σ) (r : Request) (result : Text × CompileState σ) : Prop where
  evaluates : c.Evaluates [] r s result.1 result.2
  only : ∀ text s', c.Evaluates [] r s text s' → (text, s') = result
  cursor : ∀ name, (result.2.blocks.slot name).cursor = (s.blocks.slot name).cursor

theorem ends_of_evaluates {c : Compiler σ} {s : CompileState σ} {r : Request} {result : Text × CompileState σ}
    (evaluates : c.Evaluates [] r s result.1 result.2) (advances : s.blocks.Advances result.2.blocks) :
    c.Ends s r result :=
  ⟨evaluates, fun _ _ other => evaluates_unique other evaluates, advances.cursor⟩

end Compiler

namespace Draft

open Compiler

/-- **Whatever is done to a draft, compiling it comes to an end.**  For every node and every name there is one
derivation, that of the answer: nothing that it looks up is missing, and all cursors are back where they were. -/
theorem compiling_ends {d : Draft} (reached : d.Reached) {σ : Type} (registry : Registry σ) (handlers : σ) :
    (∀ id < d.tree.size, (d.compiler registry).Ends (d.start handlers) (.node id)
      ((d.compiler registry).compile id (d.start handlers))) ∧
    (∀ name, (d.compiler registry).Ends (d.start handlers) (.body name)
      ((d.compiler registry).resolve name (d.start handlers))) ∧
    (d.compiler registry).Ends (d.start handlers) .parent ((d.compiler registry).parent (d.start handlers)) := by
  have coherent := reached.coherent
  have fits : (d.compiler registry).Fits d.blocks.pendingCount (d.start handlers) := ⟨coherent.inside, Nat.le_refl _⟩
  have ordered : (d.compiler registry).tree.Ordered := coherent.ordered
  have depth : (d.compiler registry).depth d.blocks = (d.blocks.pendingCount + 1) * (d.tree.size + 1) + 1 := rfl
  have room : (d.blocks.pendingCount + 1) * (d.tree.size + 1)
      = d.blocks.pendingCount * (d.tree.size + 1) + (d.tree.size + 1) := Nat.succ_mul ..
  refine ⟨fun id there => ?_, fun name => ?_, ?_⟩
  · have deep : d.blocks.pendingCount * (d.tree.size + 1) + (d.tree.size - id)
        < (d.compiler registry).depth d.blocks := by omega
    have evaluates := evaluates_node ordered _ [] _ id (d.start handlers) there fits deep
    have advances := advancing_compile (d.compiler registry) id (d.start handlers)
    rw [compile_eq] at advances ⊢
    exact ends_of_evaluates evaluates advances
  · have enough : d.blocks.pendingCount * (d.tree.size + 1) ≤ (d.compiler registry).depth d.blocks := by omega
    have evaluates := evaluates_body enough (evaluates_node ordered _) [] name (d.start handlers) fits
    have advances := advancing_resolve (d.compiler registry) name (d.start handlers)
    rw [resolve_eq] at advances ⊢
    exact ends_of_evaluates evaluates advances
  · exact ends_of_evaluates .outside (.refl d.blocks)

/-- A definition of a name that has two bodies.  The root, above the definition, is in both of them, and the
definition itself twice in the first one. -/
def selfContaining : Draft where
  tree := (({} : Tree).addRoot.append 0 (.text ['x']) 0).append 0 (.definition ['a'] ⟨[]⟩ .closed) 1
  blocks := (({} : BlockStack).push ['a'] [0, 2, 2]).push ['a'] [0, 1]

theorem reached_selfContaining : selfContaining.Reached := by
  have rooted : Changes {} _ := .edit (.addRoot {})
  have text : Changes _ _ := .edit (.append ⟨({} : Tree).addRoot, {}⟩ (by decide : 0 < 1) (.text ['x']) 0)
  have definition : Changes _ _ := .edit (.append ⟨({} : Tree).addRoot.append 0 (.text ['x']) 0, {}⟩
    (by decide : 0 < 2) (.definition ['a'] ⟨[]⟩ .closed) 1)
  have first : Changes _ _ := .edit (.pushBody ⟨selfContaining.tree, {}⟩ ['a']
    (by decide : ∀ id ∈ [0, 2, 2], id < 3))
  have second : Changes _ selfContaining := .edit (.pushBody ⟨selfContaining.tree, ({} : BlockStack).push ['a'] [0, 2, 2]⟩
    ['a'] (by decide : ∀ id ∈ [0, 1], id < 3))
  exact .tail (.tail (.tail (.tail (.single rooted) text) definition) first) second

/-- Compiling the root of that draft comes to an end. -/
theorem compiling_selfContaining_ends :
    selfContaining.Reached ∧ 0 < selfContaining.tree.size ∧
      (selfContaining.compiler libraryEngine.registry).Ends (selfContaining.start ()) (.node 0)
        ((selfContaining.compiler libraryEngine.registry).compile 0 (selfContaining.start ())) :=
  ⟨reached_selfContaining, by decide, (compiling_ends reached_selfContaining libraryEngine.registry ()).1 0 (by decide)⟩

end Draft

end TagTemplate
