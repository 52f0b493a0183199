/-
# Proofs.Tree.Graft -- a file is built behind others as on its own

The files of an extends chain share one arena.  Each is built below a root of its
own, behind the nodes that are already there, and never looks at these: what is
built is the tree of the file alone with every index moved up by the number of
nodes before it (`Tree.graft`), and the diagnostics are the same (`behind_build`).
Nothing is asked of the nodes in front.

So what is to be said about one file may be shown for the empty arena and moved.
-/
import TagTemplate.Proofs.Tree
import TagTemplate.Tree.Build

namespace TagTemplate

set_option autoImplicit false

/-- A node whose arena comes behind `n` other nodes. -/
def Node.shift (n : Nat) (x : Node) : Node :=
  { x with parent := x.parent.map (· + n), children := x.children.map (· + n) }

namespace Tree

/-! ## One arena behind another -/

def graft (t new : Tree) : Tree := ⟨t.nodes ++ new.nodes.map (Node.shift t.size)⟩

variable (t new : Tree)

@[simp] theorem size_graft : (t.graft new).size = new.size + t.size := by
  simp [graft, size, Nat.add_comm]

theorem node?_graft (i : NodeId) : (t.graft new).node? (i + t.size) = (new.node? i).map (Node.shift t.size) := by
  have beyond : t.nodes.size ≤ i + t.size := Nat.le_add_left ..
  rw [node?, graft, Array.getElem?_append_right beyond, Array.getElem?_map]
  congr 2
  exact Nat.add_sub_cancel ..

theorem node?_graft_of_lt {i : NodeId} (lt : i < t.size) : (t.graft new).node? i = t.node? i := by
  rw [node?, graft, Array.getElem?_append_left lt, node?]

theorem kind?_graft (i : NodeId) : (t.graft new).kind? (i + t.size) = new.kind? i := by
  rw [kind?, node?_graft, Option.map_map, kind?]
  rfl

theorem tag?_graft (i : NodeId) : (t.graft new).tag? (i + t.size) = new.tag? i := by
  rw [tag?, kind?_graft, tag?]

theorem parent?_graft (i : NodeId) : (t.graft new).parent? (i + t.size) = (new.parent? i).map (· + t.size) := by
  rw [parent?, node?_graft, parent?]
  cases new.node? i <;> rfl

theorem children_graft (i : NodeId) :
    (t.graft new).children (i + t.size) = (new.children i).map (· + t.size) := by
  rw [children, node?_graft, children]
  cases new.node? i <;> rfl

theorem ancestors_graft (i : Nat) : (t.graft new).ancestors (i + t.size) = (new.ancestors i).map (· + t.size) := by
  rw [ancestors.eq_def, ancestors.eq_def new, parent?_graft]
  cases new.parent? i with
  | none => rfl
  | some p =>
    by_cases lt : p < i
    · simp only [Option.map_some, if_pos lt, if_pos (Nat.add_lt_add_right lt t.size), List.map_cons]
      rw [ancestors_graft p]
    · simp only [Option.map_some, if_neg lt, if_neg (fun lt' => lt (Nat.lt_of_add_lt_add_right lt')), List.map_nil]
termination_by i

theorem ext_node? {t t' : Tree} (same : ∀ i, t.node? i = t'.node? i) : t = t' := by
  obtain ⟨nodes⟩ := t
  obtain ⟨nodes'⟩ := t'
  exact congrArg Tree.mk (Array.ext_getElem? same)

/-- A change of a node behind an arena is a change of it in the arena of its own. -/
theorem modify_graft (i : NodeId) {f g : Node → Node} (same : ∀ x, f (x.shift t.size) = (g x).shift t.size) :
    (t.graft new).modify (i + t.size) f = t.graft (new.modify i g) := by
  apply ext_node?
  intro j
  rw [node?_modify]
  rcases Nat.lt_or_ge j t.size with lt | ge
  · rw [if_neg (Nat.ne_of_gt (Nat.lt_of_lt_of_le lt (Nat.le_add_left ..))), node?_graft_of_lt _ _ lt,
      node?_graft_of_lt _ _ lt]
  · obtain ⟨k, rfl⟩ := Nat.exists_eq_add_of_le' ge
    rw [node?_graft, node?_graft, node?_modify]
    by_cases here : i = k
    · rw [if_pos here, if_pos (congrArg (· + t.size) here), Option.map_map, Option.map_map]
      exact congrArg (Option.map · (new.node? k)) (funext same)
    · rw [if_neg here, if_neg fun eq => here (Nat.add_right_cancel eq)]

theorem addRoot_graft : (t.graft new).addRoot = t.graft new.addRoot := by
  simp [graft, addRoot, Node.shift]

theorem append_graft (parent : NodeId) (kind : NodeKind) (offset : Nat) :
    (t.graft new).append (parent + t.size) kind offset = t.graft (new.append parent kind offset) := by
  have pushed : (⟨(t.graft new).nodes.push ⟨kind, some (parent + t.size), [], offset⟩⟩ : Tree)
      = t.graft ⟨new.nodes.push ⟨kind, some parent, [], offset⟩⟩ := by
    simp [graft, Node.shift]
  rw [append, pushed, append]
  apply modify_graft
  intro x
  simp [Node.shift]

theorem setState_graft (i : NodeId) (s : BlockState) :
    (t.graft new).setState (i + t.size) s = t.graft (new.setState i s) :=
  t.modify_graft new i fun _ => rfl

theorem clearChildren_graft (i : NodeId) :
    (t.graft new).clearChildren (i + t.size) = t.graft (new.clearChildren i) :=
  t.modify_graft new i fun _ => rfl

end Tree

/-! ## A file behind others -/

namespace Builder

/-- A file that is built behind an arena, next to the same file built on its own. -/
structure Behind (t : Tree) (alone b : Builder) : Prop where
  source : b.source = alone.source
  tree : b.tree = t.graft alone.tree
  root : b.root = alone.root + t.size
  current : b.current = alone.current + t.size
  extendsTarget : b.extendsTarget = alone.extendsTarget
  diagnostics : b.diagnostics = alone.diagnostics

variable {t : Tree} {alone b : Builder}

theorem behind_start (source : Text) (t : Tree) (blocks : BlockStack) :
    Behind t (start source {} {}) (start source t blocks) where
  source := rfl
  tree := by
    have none : t.graft {} = t := by simp [Tree.graft]
    show t.addRoot = t.graft (Tree.addRoot {})
    rw [← Tree.addRoot_graft, none]
  root := (Nat.zero_add _).symm
  current := (Nat.zero_add _).symm
  extendsTarget := rfl
  diagnostics := rfl

theorem Behind.openPath (behind : Behind t alone b) : b.openPath = alone.openPath.map (· + t.size) := by
  rw [Builder.openPath, behind.tree, behind.current, Tree.ancestors_graft, Builder.openPath]
  rfl

theorem Behind.tag? (behind : Behind t alone b) (i : NodeId) : b.tree.tag? (i + t.size) = alone.tree.tag? i := by
  rw [behind.tree, Tree.tag?_graft]

theorem Behind.add (behind : Behind t alone b) (kind : NodeKind) (offset : Nat) :
    Behind t (alone.add kind offset) (b.add kind offset) :=
  { behind with
    tree := by
      show b.tree.append b.current kind offset = _
      rw [behind.tree, behind.current, Tree.append_graft]
      rfl }

theorem Behind.report (behind : Behind t alone b) (fault : Fault) (tag : Text) (offset : Nat) :
    Behind t (alone.report fault tag offset) (b.report fault tag offset) :=
  { behind with
    diagnostics := by
      show b.diagnostics ++ [_] = alone.diagnostics ++ [_]
      rw [behind.diagnostics, behind.source] }

theorem Behind.reportMissing (behind : Behind t alone b) (i : NodeId) :
    Behind t (alone.reportMissing i) (b.reportMissing (i + t.size)) := by
  have offset : (b.tree.node? (i + t.size)).map (·.offset) = (alone.tree.node? i).map (·.offset) := by
    rw [behind.tree, Tree.node?_graft, Option.map_map]
    rfl
  have reported := behind.report .missingClosingTag ((alone.tree.tag? i).getD [])
    (((alone.tree.node? i).map (·.offset)).getD 0)
  unfold Builder.reportMissing
  simp only [behind.tag?, offset]
  exact { reported with }

theorem Behind.setState (behind : Behind t alone b) (i : NodeId) (s : BlockState) :
    Behind t { alone with tree := alone.tree.setState i s } { b with tree := b.tree.setState (i + t.size) s } :=
  { behind with tree := by rw [behind.tree]; exact Tree.setState_graft .. }

theorem Behind.abandon (behind : Behind t alone b) (i : NodeId) :
    Behind t (alone.abandon i) (b.abandon (i + t.size)) :=
  (behind.setState i .abandoned).reportMissing i

theorem Behind.close (behind : Behind t alone b) (i : NodeId) :
    Behind t (alone.close i) (b.close (i + t.size)) := by
  have closed := behind.setState i .closed
  have tree : b.tree.setState (i + t.size) .closed = t.graft (alone.tree.setState i .closed) := closed.tree
  unfold Builder.close
  dsimp only
  rw [tree, Tree.kind?_graft]
  split
  · exact { closed with tree := Tree.clearChildren_graft .. }
  · exact { closed with tree := rfl }

/-- Nodes are given up, or reported, behind an arena as they are without it. -/
theorem Behind.foldl {step : Builder → NodeId → Builder}
    (each : ∀ {alone b : Builder}, Behind t alone b → ∀ i, Behind t (step alone i) (step b (i + t.size)))
    (ids : List NodeId) : ∀ {alone b : Builder}, Behind t alone b →
      Behind t (ids.foldl step alone) ((ids.map (· + t.size)).foldl step b) := by
  induction ids with
  | nil => exact fun behind => behind
  | cons i ids ih => exact fun behind => ih (each behind i)

theorem Behind.openBlock (behind : Behind t alone b) (tag : Tag) (selfClosing : Bool) (offset : Nat) :
    Behind t (alone.openBlock tag selfClosing offset) (b.openBlock tag selfClosing offset) := by
  have added := behind.add (blockKind tag) offset
  have size : b.tree.size = alone.tree.size + t.size := by rw [behind.tree, Tree.size_graft]
  cases selfClosing with
  | true =>
    show Behind t ((alone.add (blockKind tag) offset).close alone.tree.size)
      ((b.add (blockKind tag) offset).close b.tree.size)
    rw [size]
    exact added.close alone.tree.size
  | false => exact { added with current := size }

/-- The innermost open block is the one around a node that was closed. -/
theorem Behind.leave (behind : Behind t alone b) (i : NodeId) :
    Behind t { alone with current := (alone.tree.parent? i).getD alone.root }
      { b with current := (b.tree.parent? (i + t.size)).getD b.root } :=
  { behind with
    current := by
      dsimp only
      rw [behind.tree, Tree.parent?_graft, behind.root]
      cases alone.tree.parent? i <;> rfl }

/-- A closing tag closes nothing behind an arena and without it, or it closes the same block and gives up the
same ones inside of it. -/
theorem Behind.closeBlock_cases (behind : Behind t alone b) (name : Text) (offset : Nat) :
    (alone.closeBlock name offset
        = (alone.note (.unexpectedClosingTag name)).report .unexpectedClosingTag name offset ∧
      b.closeBlock name offset = (b.note (.unexpectedClosingTag name)).report .unexpectedClosingTag name offset) ∨
    ∃ (inner : List NodeId) (matched : NodeId),
      (let closed := (inner.foldl Builder.abandon alone).close matched
       alone.closeBlock name offset = { closed with current := (closed.tree.parent? matched).getD closed.root }) ∧
      (let closed := ((inner.map (· + t.size)).foldl Builder.abandon b).close (matched + t.size)
       b.closeBlock name offset
          = { closed with current := (closed.tree.parent? (matched + t.size)).getD closed.root }) := by
  have closedBy : (fun id => !b.closedBy name id) ∘ (· + t.size) = fun id => !alone.closedBy name id := by
    funext i
    simp only [Function.comp_apply, Builder.closedBy, behind.tag?]
  unfold Builder.closeBlock
  rw [behind.openPath, List.dropWhile_map, closedBy, List.takeWhile_map, closedBy]
  cases alone.openPath.dropWhile (!alone.closedBy name ·) with
  | nil => exact .inl ⟨rfl, rfl⟩
  | cons matched rest => exact .inr ⟨alone.openPath.takeWhile (!alone.closedBy name ·), matched, rfl, rfl⟩

theorem Behind.closeBlock (behind : Behind t alone b) (name : Text) (offset : Nat) :
    Behind t (alone.closeBlock name offset) (b.closeBlock name offset) := by
  rcases behind.closeBlock_cases name offset with ⟨eq, eq'⟩ | ⟨inner, matched, eq, eq'⟩
  · rw [eq, eq']
    exact { behind.report .unexpectedClosingTag name offset with }
  · rw [eq, eq']
    exact ((behind.foldl Behind.abandon inner).close matched).leave matched

theorem Behind.pushValue (behind : Behind t alone b) (tag : Tag) (offset : Nat) :
    Behind t (alone.pushValue tag offset) (b.pushValue tag offset) := by
  unfold Builder.pushValue
  split
  · rw [behind.extendsTarget]
    split
    · exact behind
    · exact { behind with extendsTarget := rfl }
  · split
    · exact behind.add ..
    · exact behind.add ..

theorem Behind.push (behind : Behind t alone b) (token : Token) : Behind t (alone.push token) (b.push token) := by
  unfold Builder.push
  split
  · exact behind.add ..
  · split
    · exact behind.pushValue ..
    · exact behind.openBlock ..
    · exact behind.closeBlock ..

theorem Behind.foldl_push (tokens : List Token) :
    ∀ {alone b : Builder}, Behind t alone b → Behind t (tokens.foldl Builder.push alone) (tokens.foldl Builder.push b) := by
  induction tokens with
  | nil => exact fun behind => behind
  | cons token tokens ih => exact fun behind => ih (behind.push token)

theorem Behind.finish (behind : Behind t alone b) : Behind t alone.finish b.finish := by
  have outside : (fun id => id != b.root) ∘ (· + t.size) = fun id => id != alone.root := by
    funext i
    rw [Function.comp_apply, behind.root]
    by_cases same : i = alone.root
    · simp [same]
    · rw [bne_iff_ne.2 same, bne_iff_ne.2 fun eq => same (Nat.add_right_cancel eq)]
  unfold Builder.finish
  rw [behind.openPath, List.takeWhile_map, outside]
  exact behind.foldl Behind.reportMissing (alone.openPath.takeWhile (· != alone.root))

end Builder

/-- **A file is built behind an arena as it is on its own.** -/
theorem Tree.behind_build (tokens : List Token) (source : Text) (t : Tree) (blocks : BlockStack) :
    Builder.Behind t (Tree.build tokens source {} {}) (Tree.build tokens source t blocks) :=
  ((Builder.behind_start source t blocks).foldl_push tokens).finish

end TagTemplate
