/-
# Proofs.Tree.Ownership -- every node is held in one place

A node is held by its parent, in the list of its children, until its parent closes
as a block definition; from then on it is held by the body that this definition
pushed.  So over all lists of children and all bodies each node below a root occurs
once (`Tree.Owns`), whatever tokens the files of a chain consist of.

What has to be followed while tokens are read are the definitions in the order in
which they closed (`Tree.Collected`): their bodies are on the block stack in this
order, and together they are all the bodies there are.  A definition that is closed
stays closed and gets no further nodes (`Tree.Settled`), so its body stays what it
held.
-/
import Mathlib.Data.List.Nodup
import Mathlib.Data.List.Perm.Basic
import TagTemplate.Proofs.Chain

namespace TagTemplate

set_option autoImplicit false

/-! ## Where nodes are held -/

def Body.nodes : Body → List NodeId
  | .pending ids => ids
  | .compiled _ => []

def BlockStack.bodies (s : BlockStack) : List Body := s.slots.flatMap fun p => p.2.bodies

/-- A further body of a name comes to all bodies. -/
theorem BlockStack.perm_bodies_push (s : BlockStack) (name : Text) (ids : List NodeId) :
    (s.push name ids).bodies.Perm (s.bodies ++ [.pending ids]) := by
  obtain ⟨slots⟩ := s
  simp only [bodies, push, modify]
  induction slots with
  | nil => exact .refl _
  | cons p slots ih =>
    rw [modifySlot]
    split
    · simp only [List.flatMap_cons, List.append_assoc]
      exact List.perm_append_comm.append_left _
    · simp only [List.flatMap_cons, List.append_assoc]
      exact ih.append_left _

namespace Tree

def held (t : Tree) (s : BlockStack) : List NodeId :=
  (List.range t.size).flatMap t.children ++ s.bodies.flatMap Body.nodes

/-- The definitions of a name, out of those that closed, in the order in which they did. -/
def closedAs (t : Tree) (name : Text) (closings : List NodeId) : List NodeId :=
  closings.filter fun id => t.closedName? id == some name

/-- **Who holds which node** of an arena and its block stack, when block definitions closed in an order, some of
them as they opened. -/
structure Owns (t : Tree) (s : BlockStack) (closings selfClosed : List NodeId) : Prop where
  /-- A parent comes before its children. -/
  rising : t.Rising
  /-- What has no parent are the roots. -/
  rooted : ∀ i < t.size, t.parent? i = none ↔ t.kind? i = some .root
  /-- A node that is no root is held once. -/
  once : ∀ i < t.size, (t.held s).count i = if t.kind? i = some .root then 0 else 1
  /-- It is a child of its parent, or in the body that its parent pushed. -/
  place : ∀ i p, t.parent? i = some p →
    match t.closedName? p with
    | none => i ∈ t.children p
    | some name => ∃ (k : Nat) (ids : List NodeId), (t.closedAs name closings)[k]? = some p ∧
        (s.slot name).bodies[k]? = some (.pending ids) ∧ i ∈ ids
  children_sorted : ∀ i, (t.children i).Pairwise (· < ·)
  bodies_sorted : ∀ body ∈ s.bodies, body.nodes.Pairwise (· < ·)
  /-- The definitions that closed are those whose state says so, each once. -/
  closed : closings.Nodup ∧ ∀ i, i ∈ closings ↔ (t.closedName? i).isSome
  /-- There is one body for each of them, of the nodes below it. -/
  bodies : ∀ name, (s.slot name).bodies = (t.closedAs name closings).map fun id => .pending (t.offspring id)
  /-- A definition that closed as it opened has an empty body. -/
  selfClosed : ∀ id ∈ selfClosed, id ∈ closings ∧ t.offspring id = []

/-! ## Bodies in the order of closing -/

/-- Closed definitions stay closed, and hold what they held. -/
structure Settled (t t' : Tree) : Prop where
  closed : ∀ i name, t.closedName? i = some name → t'.closedName? i = some name
  offspring : ∀ i, (t.closedName? i).isSome → t'.offspring i = t.offspring i

variable {t t' : Tree} {s : BlockStack} {closings : List NodeId}

theorem Settled.refl (t : Tree) : t.Settled t := ⟨fun _ _ => id, fun _ _ => rfl⟩

theorem Settled.trans {t'' : Tree} (one : t.Settled t') (two : t'.Settled t'') : t.Settled t'' where
  closed i name closed := two.closed i name (one.closed i name closed)
  offspring i isSome := by
    obtain ⟨name, closed⟩ := Option.isSome_iff_exists.1 isSome
    rw [two.offspring i (by rw [one.closed i name closed]; rfl), one.offspring i isSome]

/-- The bodies on the block stack are those of the closed definitions, for each name in the order they closed. -/
structure Collected (t : Tree) (s : BlockStack) (closings : List NodeId) : Prop where
  nodup : closings.Nodup
  closed : ∀ i, i ∈ closings ↔ (t.closedName? i).isSome
  bodies : ∀ name, (s.slot name).bodies = (t.closedAs name closings).map fun id => .pending (t.offspring id)
  all : s.bodies.Perm (closings.map fun id => .pending (t.offspring id))

theorem collected_empty : Collected {} {} [] where
  nodup := .nil
  closed i := by
    rw [closedName?_of_size_le (Nat.zero_le i)]
    simp
  bodies _ := rfl
  all := .nil

/-- A change that closes no definition. -/
theorem Collected.settle (collected : t.Collected s closings) (settled : t.Settled t')
    (fresh : ∀ i, (t'.closedName? i).isSome → (t.closedName? i).isSome) : t'.Collected s closings := by
  have isClosed : ∀ i ∈ closings, (t.closedName? i).isSome := fun i mem => (collected.closed i).1 mem
  have offspring : ∀ i ∈ closings, t'.offspring i = t.offspring i := fun i mem => settled.offspring i (isClosed i mem)
  have named : ∀ i ∈ closings, t'.closedName? i = t.closedName? i := by
    intro i mem
    obtain ⟨name, closed⟩ := Option.isSome_iff_exists.1 (isClosed i mem)
    rw [settled.closed i name closed, closed]
  refine ⟨collected.nodup, fun i => ⟨fun mem => ?_, fun isSome => ?_⟩, fun name => ?_, ?_⟩
  · rw [named i mem]
    exact isClosed i mem
  · exact (collected.closed i).2 (fresh i isSome)
  · have same : t'.closedAs name closings = t.closedAs name closings :=
      List.filter_congr fun i mem => by rw [named i mem]
    rw [collected.bodies, same]
    exact List.map_congr_left fun i mem => by rw [offspring i (List.mem_filter.1 mem).1]
  · refine collected.all.trans (.of_eq ?_)
    exact List.map_congr_left fun i mem => by rw [offspring i mem]

/-- A definition is closed, and its children become the last body of its name. -/
theorem Collected.close (collected : t.Collected s closings) {path : List NodeId} (g : t.Gathered s path) {id : NodeId}
    (mem : id ∈ path) {name : Text} {attributes : Attributes} {state : BlockState}
    (kind : t.kind? id = some (.definition name attributes state)) :
    (Gathered.closing t id).Collected (s.push name (t.children id)) (closings ++ [id]) := by
  have closed := Gathered.closedName?_closing kind
  have offspring := Gathered.offspring_closing t id
  have unclosed := g.unclosed id mem
  have fresh : id ∉ closings := fun old => by
    have isSome := (collected.closed id).1 old
    rw [unclosed] at isSome
    cases isSome
  have held : t.children id = t.offspring id := by
    rw [g.children, unclosed]
    rfl
  have named : ∀ other, (Gathered.closing t id).closedAs other closings = t.closedAs other closings := fun other =>
    List.filter_congr fun i i_mem => by rw [closed, if_neg fun same : id = i => fresh (same ▸ i_mem)]
  refine ⟨?_, fun i => ?_, fun other => ?_, ?_⟩
  · exact List.nodup_append.2 ⟨collected.nodup, List.nodup_singleton id, fun i i_mem j j_mem same =>
      fresh (List.mem_singleton.1 j_mem ▸ same ▸ i_mem)⟩
  · rw [List.mem_append, List.mem_singleton, closed, collected.closed]
    by_cases same : id = i
    · simp [same]
    · simp [same, Ne.symm same]
  · simp only [offspring]
    have last : (Gathered.closing t id).closedName? id = some name := by rw [closed, if_pos rfl]
    rw [closedAs, List.filter_append, ← closedAs, named, List.filter_singleton, last, List.map_append, ← collected.bodies]
    by_cases same : other = name
    · rw [same, BlockStack.push, BlockStack.slot_modify_same, held]
      simp
    · rw [BlockStack.push, BlockStack.slot_modify_ne _ _ same]
      have ne : (some name == some other) = false := beq_eq_false_iff_ne.2 fun eq => same (Option.some.inj eq).symm
      simp only [ne, cond_false, List.map_nil, List.append_nil]
  · simp only [offspring]
    rw [List.map_append, List.map_singleton, held]
    exact (BlockStack.perm_bodies_push s name (t.offspring id)).trans (collected.all.append_right _)

/-! ## What changes of the arena settle -/

theorem settled_addRoot (t : Tree) : t.Settled t.addRoot where
  closed i name closed := (Gathered.closedName?_addRoot t i).trans closed
  offspring i _ := by
    rw [offspring, size_addRoot, List.range_succ, List.filter_append]
    simp [offspring, parent?_addRoot, parent?_of_size_le (Nat.le_refl t.size)]

theorem settled_append {current : NodeId} (inside : current < t.size) (unclosed : t.closedName? current = none)
    {kind : NodeKind} (fresh : kind.closedName? = none) (offset : Nat) : t.Settled (t.append current kind offset) where
  closed i name closed := (Gathered.closedName?_append offset inside fresh i).trans closed
  offspring i isSome := by
    rw [Gathered.offspring_append offset inside, if_neg]
    rintro rfl
    rw [unclosed] at isSome
    cases isSome

theorem settled_setState {id : NodeId} (unclosed : t.closedName? id = none) (state : BlockState) :
    t.Settled (t.setState id state) where
  closed i name closed := by
    rw [Gathered.closedName?_setState, if_neg]
    · exact closed
    · rintro rfl
      rw [unclosed] at closed
      cases closed
  offspring i _ := by simp only [Tree.offspring, size_setState, parent?_setState]

theorem settled_closing {id : NodeId} (unclosed : t.closedName? id = none) : t.Settled (Gathered.closing t id) where
  closed i name closed := by
    rw [closedName?, Gathered.closing, kind?_clearChildren, ← closedName?]
    exact (settled_setState unclosed .closed).closed i name closed
  offspring i _ := Gathered.offspring_closing t id i

/-! ## Roots -/

/-- The nodes without a parent are the roots. -/
def Rooted (t : Tree) : Prop := ∀ i < t.size, t.parent? i = none ↔ t.kind? i = some .root

theorem Rooted.addRoot (rooted : t.Rooted) : t.addRoot.Rooted := by
  intro i lt
  rw [parent?_addRoot, kind?_addRoot]
  rw [size_addRoot] at lt
  split
  · rename_i new
    exact iff_of_true (parent?_of_size_le (Nat.le_of_eq new.symm)) rfl
  · rename_i old
    exact rooted i (Nat.lt_of_le_of_ne (Nat.le_of_lt_succ lt) old)

theorem Rooted.append (rooted : t.Rooted) {parent : NodeId} (inside : parent < t.size) {kind : NodeKind}
    (below : kind ≠ .root) (offset : Nat) : (t.append parent kind offset).Rooted := by
  intro i lt
  rw [parent?_append inside, kind?_append inside]
  rw [size_append] at lt
  split
  · exact iff_of_false (Option.some_ne_none _) fun eq => below (Option.some.inj eq)
  · rename_i old
    exact rooted i (Nat.lt_of_le_of_ne (Nat.le_of_lt_succ lt) old)

theorem Rooted.setState (rooted : t.Rooted) (id : NodeId) (state : BlockState) : (t.setState id state).Rooted := by
  intro i lt
  rw [size_setState] at lt
  rw [parent?_setState, rooted i lt, kind?_setState]
  split
  · cases t.kind? i with
    | none => exact .rfl
    | some k => cases k <;> simp [NodeKind.withState]
  · exact .rfl

theorem Rooted.clearChildren (rooted : t.Rooted) (id : NodeId) : (t.clearChildren id).Rooted := by
  intro i lt
  rw [size_clearChildren] at lt
  rw [parent?_clearChildren, kind?_clearChildren]
  exact rooted i lt

/-- What is followed while tokens are read: the roots, and the definitions in the order they closed. -/
structure Accounts (t : Tree) (s : BlockStack) (closings : List NodeId) : Prop where
  rooted : t.Rooted
  collected : t.Collected s closings

theorem Accounts.addRoot (accounts : t.Accounts s closings) : t.addRoot.Accounts s closings where
  rooted := accounts.rooted.addRoot
  collected := accounts.collected.settle (settled_addRoot t) fun i isSome => by
    rwa [← Gathered.closedName?_addRoot t i]

theorem Accounts.append (accounts : t.Accounts s closings) {current : NodeId} (inside : current < t.size)
    (unclosed : t.closedName? current = none) {kind : NodeKind} (below : kind ≠ .root) (fresh : kind.closedName? = none)
    (offset : Nat) : (t.append current kind offset).Accounts s closings where
  rooted := accounts.rooted.append inside below offset
  collected := accounts.collected.settle (settled_append inside unclosed fresh offset) fun i isSome => by
    rwa [← Gathered.closedName?_append offset inside fresh i]

theorem Accounts.setState (accounts : t.Accounts s closings) {id : NodeId} (unclosed : t.closedName? id = none)
    {state : BlockState} (still : (t.kind? id).bind (fun k => (k.withState state).closedName?) = none) :
    (t.setState id state).Accounts s closings where
  rooted := accounts.rooted.setState id state
  collected := accounts.collected.settle (settled_setState unclosed state) fun i isSome => by
    rw [Gathered.closedName?_setState] at isSome
    split at isSome
    · rename_i same
      rw [← same, still] at isSome
      cases isSome
    · exact isSome

end Tree

/-! ## Tokens -/

/-- Whether a tag opens a definition and closes it at once. -/
def Token.isEmptyDefinition (t : Token) : Bool :=
  match t.fragment with
  | .text _ => false
  | .tag tag =>
    match tag.shape with
    | .opening _ true => tag.name == definitionTag
    | _ => false

/-- The definitions that closed between two states of an arena. -/
def Tree.newlyClosed (t t' : Tree) : List NodeId :=
  (List.range t'.size).filter fun i => (t.closedName? i).isNone && (t'.closedName? i).isSome

/-- Of two states of the bodies, those that closed in between are the further ones. -/
theorem Tree.Collected.newlyClosed_eq {t t' : Tree} {s s' : BlockStack} {closings new : List NodeId}
    (before : t.Collected s closings) (after : t'.Collected s' (closings ++ new)) (few : new.length ≤ 1) :
    t.newlyClosed t' = new := by
  obtain ⟨-, nodup, apart⟩ := List.nodup_append.1 after.nodup
  have same : (t.newlyClosed t').Perm new := by
    refine (List.perm_ext_iff_of_nodup (List.nodup_range.filter _) nodup).2 fun i => ?_
    rw [List.mem_filter, List.mem_range, Bool.and_eq_true, ← after.closed, Option.isNone_iff_eq_none,
      ← Option.not_isSome_iff_eq_none, ← before.closed, List.mem_append]
    constructor
    · rintro ⟨-, old, mem | mem⟩
      · exact absurd mem old
      · exact mem
    · intro mem
      refine ⟨Nat.lt_of_not_le fun le => ?_, fun old => apart i old i mem rfl, .inr mem⟩
      have isSome := (after.closed i).1 (List.mem_append_right _ mem)
      rw [closedName?_of_size_le le] at isSome
      cases isSome
  match new, few with
  | [], _ => exact same.eq_nil
  | [id], _ => exact List.perm_singleton.1 same

namespace Builder

variable {b : Builder} {closings : List NodeId}

def definition (b : Builder) (id : NodeId) : List NodeId :=
  match b.tree.kind? id with
  | some (.definition ..) => [id]
  | _ => []

theorem length_definition (b : Builder) (id : NodeId) : (b.definition id).length ≤ 1 := by
  unfold definition
  split
  · exact Nat.le_refl 1
  · exact Nat.zero_le 1

theorem close_of_definition {id : NodeId} {name : Text} {attributes : Attributes} {state : BlockState}
    (kind : b.tree.kind? id = some (.definition name attributes state)) :
    (b.close id).tree = Tree.Gathered.closing b.tree id ∧
      (b.close id).blocks = b.blocks.push name (b.tree.children id) := by
  have closed : (b.tree.setState id .closed).kind? id = some (.definition name attributes .closed) := by
    rw [Tree.kind?_setState, if_pos rfl, kind]
    rfl
  unfold close
  simp only [closed, Tree.children_setState]
  exact ⟨rfl, rfl⟩

theorem close_of_other {id : NodeId}
    (kind : ∀ name attributes state, b.tree.kind? id ≠ some (.definition name attributes state)) :
    (b.close id).tree = b.tree.setState id .closed ∧ (b.close id).blocks = b.blocks := by
  unfold close
  dsimp only
  split
  · rename_i name attributes state closed
    rw [Tree.kind?_setState, if_pos rfl, Option.map_eq_some_iff] at closed
    obtain ⟨k, was, eq⟩ := closed
    cases k <;> cases eq
    exact absurd was (kind name attributes _)
  · exact ⟨rfl, rfl⟩

/-- A node of a path is closed; if it is a definition, it is the last to close. -/
theorem accounts_close {path : List NodeId} (g : b.tree.Gathered b.blocks path)
    (accounts : b.tree.Accounts b.blocks closings) {id : NodeId} (mem : id ∈ path) :
    (b.close id).tree.Accounts (b.close id).blocks (closings ++ b.definition id) ∧ b.tree.Settled (b.close id).tree := by
  have unclosed := g.unclosed id mem
  unfold definition
  split
  · rename_i name attributes state kind
    obtain ⟨tree, blocks⟩ := close_of_definition kind
    rw [tree, blocks]
    refine ⟨⟨?_, accounts.collected.close g mem kind⟩, Tree.settled_closing unclosed⟩
    exact (accounts.rooted.setState id .closed).clearChildren id
  · rename_i other
    obtain ⟨tree, blocks⟩ := close_of_other fun name attributes state => other name attributes state
    rw [tree, blocks, List.append_nil]
    refine ⟨accounts.setState unclosed ?_, Tree.settled_setState unclosed .closed⟩
    cases kind : b.tree.kind? id with
    | none => rfl
    | some k =>
      cases k with
      | definition name attributes state => exact absurd kind (other name attributes state)
      | _ => rfl

theorem accounts_foldl_abandon {path : List NodeId} (ids : List NodeId) :
    ∀ b : Builder, b.tree.Gathered b.blocks path → (∀ id ∈ ids, id ∈ path) → b.tree.Accounts b.blocks closings →
      (ids.foldl abandon b).tree.Accounts (ids.foldl abandon b).blocks closings ∧
      b.tree.Settled (ids.foldl abandon b).tree := by
  induction ids with
  | nil => exact fun b _ _ accounts => ⟨accounts, .refl _⟩
  | cons id ids ih =>
    intro b g mem accounts
    have here := mem id (List.mem_cons_self ..)
    have unclosed := g.unclosed id here
    have still : (b.tree.kind? id).bind (fun k => (k.withState .abandoned).closedName?) = none := by
      cases b.tree.kind? id with
      | none => rfl
      | some k => cases k <;> rfl
    obtain ⟨accounts', settled⟩ := ih (b.abandon id) (gathered_abandon g here)
      (fun i i_mem => mem i (List.mem_cons_of_mem _ i_mem)) (accounts.setState unclosed still)
    exact ⟨accounts', (Tree.settled_setState unclosed .abandoned).trans settled⟩

/-- What a token does: it closes at most one definition, which is the last to close. -/
structure Advances (b b' : Builder) (closings new : List NodeId) : Prop where
  few : new.length ≤ 1
  accounts : b'.tree.Accounts b'.blocks (closings ++ new)
  settled : b.tree.Settled b'.tree

theorem Advances.none {b' : Builder} (accounts : b'.tree.Accounts b'.blocks closings) (settled : b.tree.Settled b'.tree) :
    Advances b b' closings [] :=
  ⟨Nat.zero_le 1, (List.append_nil closings).symm ▸ accounts, settled⟩

variable (sound : b.Sound) (accounts : b.tree.Accounts b.blocks closings)
include sound accounts

theorem advances_add {kind : NodeKind} (below : kind ≠ .root) (fresh : kind.closedName? = none) (offset : Nat) :
    Advances b (b.add kind offset) closings [] := by
  have inside := inside_current sound
  have unclosed := sound.gathered.unclosed b.current (List.mem_cons_self ..)
  exact .none (accounts.append inside unclosed below fresh offset) (Tree.settled_append inside unclosed fresh offset)

omit sound accounts in
theorem blockKind_ne_root (tag : Tag) : blockKind tag ≠ .root := by
  unfold blockKind
  split <;> nofun

theorem advances_closeBlock (name : Text) (offset : Nat) :
    ∃ new, Advances b (b.closeBlock name offset) closings new := by
  rcases closeBlock_cases sound name offset with eq | ⟨inner, matched, outer, path, -, -, -, eq⟩
  · rw [eq]
    exact ⟨[], .none accounts (.refl _)⟩
  · have within : ∀ i ∈ inner, i ∈ b.openPath := fun i mem => path ▸ List.mem_append_left _ mem
    have here : matched ∈ b.openPath := path ▸ List.mem_append_right _ (List.mem_cons_self ..)
    obtain ⟨g, -⟩ := gathered_foldl_abandon inner b sound.gathered within
    obtain ⟨accounts₁, settled₁⟩ := accounts_foldl_abandon inner b sound.gathered within accounts
    obtain ⟨accounts₂, settled₂⟩ := accounts_close g accounts₁ here
    rw [eq]
    exact ⟨_, length_definition .., accounts₂, settled₁.trans settled₂⟩

/-- A block that closes as it opens; if it is a definition, nothing is in it. -/
theorem advances_selfClosing (tag : Tag) (offset : Nat) :
    ∃ new, Advances b (b.openBlock tag true offset) closings new ∧
      (tag.name = definitionTag → new = [b.tree.size] ∧ (b.openBlock tag true offset).tree.offspring b.tree.size = []) := by
  have fresh := closedName?_blockKind tag
  have inside := inside_current sound
  have added := advances_add sound accounts (blockKind_ne_root tag) fresh offset
  have g := gathered_add sound fresh offset
  obtain ⟨closed, settled⟩ := accounts_close g (List.append_nil closings ▸ added.accounts) (List.mem_cons_self ..)
  refine ⟨_, ⟨length_definition .., closed, added.settled.trans settled⟩, fun named => ⟨?_, ?_⟩⟩
  · have kind : (b.add (blockKind tag) offset).tree.kind? b.tree.size = some (blockKind tag) := by
      rw [add, Tree.kind?_append inside, if_pos rfl]
    rw [definition, kind, blockKind, if_pos named]
  · refine List.eq_nil_iff_forall_not_mem.2 fun i mem => ?_
    have parent := (Tree.mem_offspring_iff ..).1 mem
    have before : (b.add (blockKind tag) offset).tree.parent? i = some b.tree.size :=
      ((frame_close (b.add (blockKind tag) offset) b.tree.size).parent i).symm.trans parent
    have size : (b.add (blockKind tag) offset).tree.size = b.tree.size + 1 := Tree.size_append ..
    have lt : i < b.tree.size + 1 := size ▸ Tree.lt_size_of_parent? before
    have gt : b.tree.size < i := g.rising i b.tree.size before
    exact Nat.not_lt_of_le (Nat.le_of_lt_succ lt) gt

omit sound accounts in
theorem push_of_isEmptyDefinition {t : Token} (empty : t.isEmptyDefinition = true) :
    ∃ tag : Tag, tag.name = definitionTag ∧ b.push t = b.openBlock tag true t.start := by
  unfold Token.isEmptyDefinition at empty
  split at empty
  · cases empty
  · rename_i tag fragment
    split at empty
    · rename_i raw shape
      exact ⟨tag, beq_iff_eq.1 empty, push_of_opening fragment shape⟩
    · cases empty

theorem advances_openBlock (tag : Tag) (selfClosing : Bool) (offset : Nat) :
    ∃ new, Advances b (b.openBlock tag selfClosing offset) closings new := by
  cases selfClosing with
  | true =>
    obtain ⟨new, advances, -⟩ := advances_selfClosing sound accounts tag offset
    exact ⟨new, advances⟩
  | false =>
    obtain ⟨few, added, settled⟩ := advances_add sound accounts (blockKind_ne_root tag) (closedName?_blockKind tag) offset
    exact ⟨[], few, added, settled⟩

theorem advances_push (t : Token) : ∃ new, Advances b (b.push t) closings new := by
  have pushed := pushed_push b t
  generalize b.push t = b' at pushed ⊢
  cases pushed with
  | leaf settled below _ =>
    exact ⟨[], advances_add sound accounts below (NodeKind.closedName?_of_settled settled) t.start⟩
  | extending _ => exact ⟨[], .none accounts (.refl _)⟩
  | opening _ _ => exact advances_openBlock sound accounts ..
  | closing _ _ => exact advances_closeBlock sound accounts ..

end Builder

/-! ## Files in turn -/

namespace Builder

def closing (b : Builder) (t : Token) : List NodeId := b.tree.newlyClosed (b.push t).tree

def emptied (b : Builder) (t : Token) : List NodeId := if t.isEmptyDefinition then [b.tree.size] else []

end Builder

namespace Tree

/-- Arena and block stack with a further file, given by its tokens and its prepared source. -/
def addFile (state : Tree × BlockStack) (file : List Token × Text) : Tree × BlockStack :=
  let b := build file.1 file.2 state.1 state.2
  (b.tree, b.blocks)

/-- Build files in turn, each onto what those before it have built. -/
def buildAll (files : List (List Token × Text)) : Tree × BlockStack := files.foldl addFile ({}, {})

def traceAll {α : Type} (see : Builder → Token → List α) : Tree × BlockStack → List (List Token × Text) → List α
  | _, [] => []
  | state, file :: files =>
    (Builder.start file.2 state.1 state.2).trace see file.1 ++ traceAll see (addFile state file) files

def closings (files : List (List Token × Text)) : List NodeId := traceAll Builder.closing ({}, {}) files

def selfClosed (files : List (List Token × Text)) : List NodeId := traceAll Builder.emptied ({}, {}) files

/-- Definitions that closed, with nothing in them. -/
def Emptied (t : Tree) (closings empty : List NodeId) : Prop := ∀ id ∈ empty, id ∈ closings ∧ t.offspring id = []

/-- Arena and block stack between two files. -/
structure Filed (t : Tree) (s : BlockStack) (closings empty : List NodeId) : Prop where
  gathered : t.Gathered s []
  accounts : t.Accounts s closings
  emptied : t.Emptied closings empty

theorem Emptied.settle {t t' : Tree} {closings empty : List NodeId} (emptied : t.Emptied closings empty)
    (collected : ∀ i ∈ closings, (t.closedName? i).isSome) (settled : t.Settled t') (new : List NodeId) :
    t'.Emptied (closings ++ new) empty := by
  intro id mem
  obtain ⟨closed, none⟩ := emptied id mem
  exact ⟨List.mem_append_left _ closed, (settled.offspring id (collected id closed)).trans none⟩

end Tree

namespace Builder

/-- **Every token keeps account** of the definitions that closed. -/
theorem accounts_push {b : Builder} {closings empty : List NodeId} (sound : b.Sound)
    (accounts : b.tree.Accounts b.blocks closings) (emptied : b.tree.Emptied closings empty) (t : Token) :
    (b.push t).tree.Accounts (b.push t).blocks (closings ++ b.closing t) ∧
      (b.push t).tree.Emptied (closings ++ b.closing t) (empty ++ b.emptied t) := by
  have isClosed : ∀ i ∈ closings, (b.tree.closedName? i).isSome := fun i mem => (accounts.collected.closed i).1 mem
  by_cases defines : t.isEmptyDefinition = true
  · obtain ⟨tag, named, pushed⟩ := push_of_isEmptyDefinition (b := b) defines
    obtain ⟨new, advances, closed⟩ := advances_selfClosing sound accounts tag t.start
    obtain ⟨rfl, none⟩ := closed named
    rw [← pushed] at advances none
    have new_eq : b.closing t = [b.tree.size] := accounts.collected.newlyClosed_eq advances.accounts.collected advances.few
    rw [new_eq, Builder.emptied, if_pos defines]
    refine ⟨advances.accounts, List.forall_mem_append.2 ⟨emptied.settle isClosed advances.settled _, ?_⟩⟩
    exact List.forall_mem_singleton.2 ⟨List.mem_append_right _ (List.mem_singleton_self _), none⟩
  · obtain ⟨new, advances⟩ := advances_push sound accounts t
    have new_eq : b.closing t = new := accounts.collected.newlyClosed_eq advances.accounts.collected advances.few
    rw [new_eq, Builder.emptied, if_neg defines, List.append_nil]
    exact ⟨advances.accounts, emptied.settle isClosed advances.settled new⟩

theorem accounts_foldl_push (tokens : List Token) : ∀ (b : Builder) (closings empty : List NodeId), b.Sound →
    b.tree.Accounts b.blocks closings → b.tree.Emptied closings empty →
      (tokens.foldl push b).tree.Accounts (tokens.foldl push b).blocks (closings ++ b.trace closing tokens) ∧
      (tokens.foldl push b).tree.Emptied (closings ++ b.trace closing tokens) (empty ++ b.trace Builder.emptied tokens) := by
  induction tokens with
  | nil =>
    intro b closings empty _ accounts emptied
    rw [trace, trace, List.append_nil, List.append_nil]
    exact ⟨accounts, emptied⟩
  | cons t tokens ih =>
    intro b closings empty sound accounts emptied
    obtain ⟨accounts', emptied'⟩ := accounts_push sound accounts emptied t
    rw [trace, trace, ← List.append_assoc, ← List.append_assoc]
    exact ih (b.push t) _ _ (sound_push sound t) accounts' emptied'

end Builder

namespace Tree

variable {t : Tree} {s : BlockStack} {closings empty : List NodeId}

/-- A further file keeps account of the definitions that closed. -/
theorem Filed.addFile (filed : t.Filed s closings empty) (file : List Token × Text) :
    (Tree.addFile (t, s) file).1.Filed (Tree.addFile (t, s) file).2
      (closings ++ (Builder.start file.2 t s).trace Builder.closing file.1)
      (empty ++ (Builder.start file.2 t s).trace Builder.emptied file.1) := by
  have emptied : t.addRoot.Emptied closings empty := by
    have kept := filed.emptied.settle (fun i mem => (filed.accounts.collected.closed i).1 mem) (settled_addRoot t) []
    rwa [List.append_nil] at kept
  obtain ⟨accounts, emptied⟩ := Builder.accounts_foldl_push file.1 (Builder.start file.2 t s) closings empty
    (Builder.sound_start file.2 filed.gathered) filed.accounts.addRoot emptied
  have gathered := gathered_build file.1 file.2 filed.gathered
  -- What is reported at the end of a file changes neither arena nor block stack.
  obtain ⟨tree, blocks, -⟩ := Builder.foldl_reportMissing _ (file.1.foldl Builder.push (Builder.start file.2 t s))
  refine ⟨gathered, ?_, ?_⟩
  · show (build file.1 file.2 t s).tree.Accounts (build file.1 file.2 t s).blocks _
    rw [build, Builder.finish, tree, blocks]
    exact accounts
  · show (build file.1 file.2 t s).tree.Emptied _ _
    rw [build, Builder.finish, tree]
    exact emptied

theorem Filed.foldl_addFile (files : List (List Token × Text)) :
    ∀ {t : Tree} {s : BlockStack} {closings empty : List NodeId}, t.Filed s closings empty →
      (files.foldl Tree.addFile (t, s)).1.Filed (files.foldl Tree.addFile (t, s)).2
        (closings ++ traceAll Builder.closing (t, s) files) (empty ++ traceAll Builder.emptied (t, s) files) := by
  induction files with
  | nil =>
    intro t s closings empty filed
    rw [traceAll, traceAll, List.append_nil, List.append_nil]
    exact filed
  | cons file files ih =>
    intro t s closings empty filed
    rw [traceAll, traceAll, ← List.append_assoc, ← List.append_assoc]
    exact ih (filed.addFile file)

theorem filed_empty : Filed {} {} [] [] where
  gathered := Chain.gathered_empty
  accounts := ⟨fun _ lt => absurd lt (Nat.not_lt_zero _), collected_empty⟩
  emptied := nofun

/-! ## Held once -/

theorem pairwise_offspring (t : Tree) (id : NodeId) : (t.offspring id).Pairwise (· < ·) :=
  List.pairwise_lt_range.filter _

/-- What the open nodes hold and what the closed definitions held, together, is what all nodes ever held. -/
theorem perm_offspring (g : t.Gathered s []) (ids : List NodeId) :
    (ids.flatMap t.children ++ (ids.filter fun id => (t.closedName? id).isSome).flatMap t.offspring).Perm
      (ids.flatMap t.offspring) := by
  induction ids with
  | nil => exact .refl _
  | cons id ids ih =>
    rw [List.flatMap_cons, List.flatMap_cons, List.filter_cons, g.children]
    split
    · rw [List.nil_append, List.flatMap_cons]
      exact List.perm_append_comm_assoc .. |>.trans (ih.append_left _)
    · rw [List.append_assoc]
      exact ih.append_left _

theorem nodup_offspring (t : Tree) : ((List.range t.size).flatMap t.offspring).Nodup := by
  refine List.nodup_flatMap.2 ⟨fun id _ => (pairwise_offspring t id).imp Nat.ne_of_lt, ?_⟩
  refine List.nodup_range.imp fun ne => ?_
  intro i mem mem'
  rw [mem_offspring_iff] at mem mem'
  exact ne (Option.some.inj (mem.symm.trans mem'))

/-- **All that is held** are the nodes that have a parent. -/
theorem Filed.perm_held (filed : t.Filed s closings empty) :
    (t.held s).Perm ((List.range t.size).flatMap t.offspring) := by
  have collected := filed.accounts.collected
  have closed : closings.Perm ((List.range t.size).filter fun id => (t.closedName? id).isSome) := by
    refine (List.perm_ext_iff_of_nodup collected.nodup (List.nodup_range.filter _)).2 fun i => ?_
    rw [collected.closed, List.mem_filter, List.mem_range]
    refine ⟨fun isSome => ⟨Nat.lt_of_not_le fun le => ?_, isSome⟩, fun h => h.2⟩
    rw [closedName?_of_size_le le] at isSome
    cases isSome
  have bodies : (s.bodies.flatMap Body.nodes).Perm (closings.flatMap t.offspring) := by
    refine (collected.all.flatMap_right _).trans (.of_eq ?_)
    rw [List.flatMap_map]
    rfl
  exact ((bodies.trans (closed.flatMap_right _)).append_left _).trans (perm_offspring filed.gathered _)

theorem Filed.mem_held_iff (filed : t.Filed s closings empty) (i : NodeId) :
    i ∈ t.held s ↔ ∃ p, t.parent? i = some p := by
  rw [filed.perm_held.mem_iff, List.mem_flatMap]
  simp only [mem_offspring_iff, List.mem_range]
  refine exists_congr fun p => and_iff_right_of_imp fun parent => ?_
  exact Nat.lt_trans (filed.gathered.rising i p parent) (lt_size_of_parent? parent)

theorem Filed.owns (filed : t.Filed s closings empty) : t.Owns s closings empty where
  rising := filed.gathered.rising
  rooted := filed.accounts.rooted
  once i lt := by
    have nodup : (t.held s).Nodup := filed.perm_held.nodup_iff.2 (nodup_offspring t)
    have isRoot := filed.accounts.rooted i lt
    cases parent : t.parent? i with
    | none =>
      rw [if_pos (isRoot.1 parent), List.count_eq_zero, filed.mem_held_iff, parent]
      nofun
    | some p =>
      rw [if_neg fun root => Option.some_ne_none p (parent.symm.trans (isRoot.2 root))]
      exact List.count_eq_one_of_mem nodup ((filed.mem_held_iff i).2 ⟨p, parent⟩)
  place i p parent := by
    have mem := (mem_offspring_iff ..).2 parent
    split
    · rename_i unclosed
      rw [filed.gathered.children, unclosed]
      exact mem
    · rename_i name closed
      have listed : p ∈ t.closedAs name closings := by
        refine List.mem_filter.2 ⟨(filed.accounts.collected.closed p).2 (by rw [closed]; rfl), ?_⟩
        exact beq_iff_eq.2 closed
      obtain ⟨k, here⟩ := List.mem_iff_getElem?.1 listed
      refine ⟨k, t.offspring p, here, ?_, mem⟩
      rw [filed.accounts.collected.bodies, List.getElem?_map, here]
      rfl
  children_sorted i := by
    rw [filed.gathered.children]
    split
    · exact .nil
    · exact pairwise_offspring t i
  bodies_sorted body mem := by
    obtain ⟨id, -, rfl⟩ := List.mem_map.1 (filed.accounts.collected.all.subset mem)
    exact pairwise_offspring t id
  closed := ⟨filed.accounts.collected.nodup, filed.accounts.collected.closed⟩
  bodies := filed.accounts.collected.bodies
  selfClosed := filed.emptied

/-- **Every node is held in one place.**  Whatever tokens some files consist of: when they have been built in turn
onto one arena and one block stack, each node but the roots is in the list of its parent's children or, if its
parent closed as a block definition, in the body that this definition pushed; and the bodies of a name are those of
its closed definitions, in the order in which they closed. -/
theorem owns_buildAll (files : List (List Token × Text)) :
    (buildAll files).1.Owns (buildAll files).2 (Tree.closings files) (Tree.selfClosed files) :=
  (filed_empty.foldl_addFile files).owns

end Tree

end TagTemplate
