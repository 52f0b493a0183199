/-
# Proofs.Tree.Sketch -- what a template says, without an arena

What a template comes to can be told without indices, offsets and states: for each block
that is still open what its children say so far, and for each name what its bodies say
(`Sketch`).  A block that is still open says nothing yet, and goes on saying nothing when
it is given up; once it closes it says its content, or only its name if it is a
definition, and its content is filed as a body.

`Builder.Draws` ties the two together: every token does to the arena what it does to the
sketch (`Draws.push`).  The arena keeps pace because what a node says changes only when
the node closes.  Nodes further up the open path are open themselves and say nothing,
whatever is inside of them.

The layers of a sketch remember the indices of their nodes.  Nothing is read from these;
they are there to speak of the same block in both.
-/
import TagTemplate.Proofs.Compile.Likeness
import TagTemplate.Proofs.Tree.Nesting
import TagTemplate.Proofs.Tree.Ownership

namespace TagTemplate

set_option autoImplicit false

/-! ## Sketches -/

/-- An open block or the root, with what its children say so far. -/
structure Layer where
  id : NodeId
  kind : NodeKind
  said : List Markup := []

namespace Layer

def saying (l : Layer) (m : Markup) : Layer := { l with said := l.said ++ [m] }

/-- The last child turned out to say something else. -/
def correcting (l : Layer) (m : Markup) : Layer := { l with said := l.said.dropLast ++ [m] }

def closed (l : Layer) : Markup := Tree.read l.said (some (l.kind.withState .closed))

def bodyOf (l : Layer) (name : Text) : List (List Markup) :=
  match l.kind with
  | .definition n _ _ => if n = name then [l.said] else []
  | _ => []

variable {l : Layer}

theorem bodyOf_of_definition {n : Text} {attributes : Attributes} {state : BlockState}
    (kind : l.kind = .definition n attributes state) (name : Text) :
    l.bodyOf name = if n = name then [l.said] else [] := by
  rw [bodyOf, kind]

theorem bodyOf_of_other (kind : ∀ n attributes state, l.kind ≠ .definition n attributes state) (name : Text) :
    l.bodyOf name = [] := by
  unfold bodyOf
  split
  · rename_i n attributes state eq
    exact absurd eq (kind n attributes state)
  · rfl

end Layer

/-- What the tokens read so far say. -/
structure Sketch where
  /-- The open blocks, from the inside out, and the root. -/
  layers : List Layer := [⟨0, .root, []⟩]
  /-- What the bodies of each name say. -/
  bodies : Text → List (List Markup) := fun _ => []
  /-- The index of the next node. -/
  next : NodeId := 1

namespace Sketch

/-- A further child of the innermost open block. -/
def say (k : Sketch) (m : Markup) : Sketch :=
  { k with layers := k.layers.modifyHead (·.saying m), next := k.next + 1 }

/-- Close a block that was the last child of the layers around it. -/
def close (k : Sketch) (l : Layer) (around : List Layer) : Sketch :=
  { k with
    layers := around.modifyHead (·.correcting l.closed)
    bodies := fun name => k.bodies name ++ l.bodyOf name }

def pushValue (k : Sketch) (tag : Tag) : Sketch :=
  if tag.name = extendsTag then k
  else if tag.name = parentTag then k.say .parent
  else k.say (.value tag.name tag.attributes tag.raw)

/-- Take an opening tag; its block says nothing for now. -/
def openBlock (k : Sketch) (tag : Tag) (selfClosing : Bool) : Sketch :=
  let l : Layer := { id := k.next, kind := Builder.blockKind tag }
  let k := k.say (.group [])
  if selfClosing then k.close l k.layers else { k with layers := l :: k.layers }

def closeBlock (k : Sketch) (name : Text) : Sketch :=
  match k.layers.dropWhile (·.kind.tag? != some name) with
  | [] => k
  | l :: around => k.close l around

def push (k : Sketch) (t : Token) : Sketch :=
  match t.fragment with
  | .text x => k.say (.text x)
  | .tag tag =>
    match tag.shape with
    | .value _ => k.pushValue tag
    | .opening _ selfClosing => k.openBlock tag selfClosing
    | .closing => k.closeBlock tag.name

end Sketch

/-! ## Where an arena goes on saying the same -/

namespace Tree

variable {t t' : Tree} {s : BlockStack} {path : List NodeId}

/-- An open or abandoned block says nothing. -/
theorem markup_of_isUnclosed (ordered : t.Ordered) {i : NodeId} (unclosed : t.isUnclosed i = true) :
    t.markup i = .group [] := by
  rw [markup_eq ordered]
  unfold isUnclosed at unclosed
  cases kind : t.kind? i with
  | none => rfl
  | some k =>
    rw [kind] at unclosed
    cases k with
    | block tag attributes state => cases state <;> first | rfl | cases unclosed
    | definition name attributes state => cases state <;> first | rfl | cases unclosed
    | _ => cases unclosed

/-- Some nodes say what they said if each of them is silent, or is what it was and has such nodes as children. -/
theorem markup_congr (ordered : t.Ordered) (ordered' : t'.Ordered) {steady : Nat → Prop}
    (same : ∀ i, steady i → t.isUnclosed i = true ∧ t'.isUnclosed i = true ∨
      t'.kind? i = t.kind? i ∧ t'.children i = t.children i ∧ ∀ child ∈ t.children i, steady child)
    (i : Nat) (here : steady i) : t'.markup i = t.markup i := by
  rcases same i here with ⟨unclosed, unclosed'⟩ | ⟨kind, children, below⟩
  · rw [markup_of_isUnclosed ordered unclosed, markup_of_isUnclosed ordered' unclosed']
  · rw [markup_eq ordered, markup_eq ordered', kind, children]
    congr 1
    refine List.map_congr_left fun child mem => ?_
    have further := ordered i child mem
    exact markup_congr ordered ordered' same child (below child mem)
termination_by t.size - i

theorem parent?_of_ancestors {i p : NodeId} {rest : List NodeId} (above : t.ancestors i = p :: rest) :
    t.parent? i = some p := by
  rw [ancestors.eq_def] at above
  split at above
  · rename_i parent
    split at above
    · rw [parent, (List.cons.inj above).1]
    · cases above
  · cases above

/-- On the open path each node is the last child of the next. -/
theorem Gathered.children_of_path (g : t.Gathered s path) {inner outer : Nat} (mem : inner ∈ path) (mem' : outer ∈ path)
    (parent : t.parent? inner = some outer) : ∃ before, t.children outer = before ++ [inner] ∧ inner ∉ before := by
  have children : t.children outer = t.offspring outer := by
    rw [g.children, g.unclosed outer mem']
    rfl
  have sorted := pairwise_offspring t outer
  rw [← children] at sorted
  have here : inner ∈ t.children outer := children ▸ (mem_offspring_iff ..).2 parent
  obtain ⟨before, after, split⟩ := List.append_of_mem here
  rw [split] at sorted
  obtain ⟨-, later, earlier⟩ := List.pairwise_append.1 sorted
  have last : after = [] := by
    refine List.eq_nil_iff_forall_not_mem.2 fun i i_mem => ?_
    -- A later child of `outer` would have to lie below `inner`.
    have lt := (List.pairwise_cons.1 later).1 i i_mem
    have held := g.parent?_of_mem_children (split ▸ List.mem_append_right _ (List.mem_cons_of_mem _ i_mem))
    have below := g.around inner mem i lt (lt_size_of_parent? held)
    rw [ancestors_of_parent? g.rising held] at below
    have gt := g.rising inner outer parent
    rcases List.mem_cons.1 below with eq | above
    · exact Nat.ne_of_gt gt eq
    · exact Nat.lt_asymm gt (lt_of_mem_ancestors above)
  refine ⟨before, by rw [split, last], fun again => ?_⟩
  exact Nat.lt_irrefl _ (earlier inner again inner (List.mem_cons_self ..))

/-- Bodies go on saying the same if the nodes that closed definitions held do. -/
theorem Owned.said_congr (owned : t.Owned s)
    (same : ∀ i p, t.parent? i = some p → (t.closedName? p).isSome → t'.markup i = t.markup i) (name : Text) :
    (s.slot name).bodies.map (Body.said t') = (s.slot name).bodies.map (Body.said t) := by
  refine List.map_congr_left fun body mem => ?_
  cases body with
  | compiled output => rfl
  | pending ids =>
    refine congrArg (Prod.mk true) (List.map_congr_left fun id id_mem => ?_)
    obtain ⟨outer, parent, closed⟩ := owned name ids mem id id_mem
    exact same id outer parent closed

end Tree

/-! ## A sketch of an arena -/

/-- A layer is an open block of the arena or a root, whose children say what the layer says. -/
structure Layer.Drawn (t : Tree) (l : Layer) : Prop where
  kind : t.kind? l.id = some l.kind
  opened : l.kind.state? = some .opened ∨ t.parent? l.id = none
  said : (t.children l.id).map t.markup = l.said

/-- An arena and a block stack say what a sketch says. -/
structure Tree.Drawn (t : Tree) (s : BlockStack) (k : Sketch) : Prop where
  size : t.size = k.next
  layers : ∀ l ∈ k.layers, l.Drawn t
  bodies : ∀ name, (s.slot name).bodies.map (Body.said t) = (k.bodies name).map (Prod.mk true)

namespace Layer.Drawn

variable {t : Tree} {l : Layer}

theorem isUnclosed (drawn : l.Drawn t) {p : NodeId} (parent : t.parent? l.id = some p) :
    t.isUnclosed l.id = true := by
  rcases drawn.opened with opened | rootless
  · simp [Tree.isUnclosed, drawn.kind, NodeKind.isUnclosed, opened]
  · rw [rootless] at parent
    cases parent

/-- A layer keeps its kind, its parent and its children, and these say what they said. -/
theorem of_same {t' : Tree} (drawn : l.Drawn t) (kind : t'.kind? l.id = t.kind? l.id)
    (parent : t'.parent? l.id = t.parent? l.id) (children : t'.children l.id = t.children l.id)
    (same : ∀ child ∈ t.children l.id, t'.markup child = t.markup child) : l.Drawn t' := by
  refine ⟨kind.trans drawn.kind, ?_, ?_⟩
  · rw [parent]
    exact drawn.opened
  · rw [children, ← drawn.said]
    exact List.map_congr_left same

theorem lt_size (drawn : l.Drawn t) : l.id < t.size := by
  refine Nat.lt_of_not_le fun le => ?_
  have none := Tree.kind?_of_size_le le
  rw [drawn.kind] at none
  cases none

end Layer.Drawn

namespace Tree

variable {t : Tree} {s : BlockStack} {path : List NodeId} {k : Sketch} {l outer : Layer} {around : List Layer}

section Change

variable (g : t.Gathered s path) (owned : t.Owned s)
include g

/-- What is below a node still says what it said when the innermost layer has a further child. -/
theorem markup_append (here : l.Drawn t) {kind : NodeKind} {offset : Nat}
    (ordered' : (t.append l.id kind offset).Ordered) :
    ∀ i, (∃ p, t.parent? i = some p) → (t.append l.id kind offset).markup i = t.markup i := by
  refine markup_congr g.ordered ordered' fun i held => ?_
  obtain ⟨p, parent⟩ := held
  have kind_eq : (t.append l.id kind offset).kind? i = t.kind? i := by
    rw [kind?_append here.lt_size, if_neg (Nat.ne_of_lt (lt_size_of_parent? parent))]
  by_cases same : i = l.id
  · have unclosed := here.isUnclosed (same ▸ parent)
    rw [← same] at unclosed
    refine .inl ⟨unclosed, ?_⟩
    rwa [isUnclosed, kind_eq]
  · refine .inr ⟨kind_eq, ?_, fun child mem => ⟨i, g.parent?_of_mem_children mem⟩⟩
    rw [children_append here.lt_size, if_neg same]

/-- An open block that is given up said nothing, and goes on saying nothing. -/
theorem markup_abandon (unclosed : t.isUnclosed l.id = true) (i : NodeId) :
    (t.setState l.id .abandoned).markup i = t.markup i := by
  have ordered' : (t.setState l.id .abandoned).Ordered := by
    intro id child mem
    rw [children_setState] at mem
    rw [size_setState]
    exact g.ordered id child mem
  refine @markup_congr _ _ g.ordered ordered' (fun _ => True) (fun i _ => ?_) i trivial
  by_cases same : i = l.id
  · rw [same]
    refine .inl ⟨unclosed, ?_⟩
    rw [isUnclosed, kind?_setState, if_pos rfl]
    unfold isUnclosed at unclosed
    cases kind : t.kind? l.id with
    | none =>
      rw [kind] at unclosed
      cases unclosed
    | some kind' =>
      rw [kind] at unclosed
      cases kind' <;> first | rfl | cases unclosed
  · refine .inr ⟨?_, children_setState .., fun _ _ => trivial⟩
    rw [kind?_setState, if_neg (Ne.symm same)]

include owned

/-- **A further node** below the innermost layer. -/
theorem Drawn.append (drawn : t.Drawn s k) (layers : k.layers = l :: around)
    (apart : ∀ outer ∈ around, outer.id ≠ l.id) (kind : NodeKind) (offset : Nat)
    (ordered' : (t.append l.id kind offset).Ordered) :
    (t.append l.id kind offset).Drawn s (k.say (read [] (some kind))) := by
  have here := drawn.layers l (layers ▸ List.mem_cons_self ..)
  have inside := here.lt_size
  have old : ∀ i < t.size, (t.append l.id kind offset).kind? i = t.kind? i ∧
      (t.append l.id kind offset).parent? i = t.parent? i := by
    intro i lt
    rw [kind?_append inside, parent?_append inside, if_neg (Nat.ne_of_lt lt), if_neg (Nat.ne_of_lt lt)]
    exact ⟨rfl, rfl⟩
  have kept : ∀ i, ∀ child ∈ t.children i, (t.append l.id kind offset).markup child = t.markup child :=
    fun i child mem => markup_append g here ordered' child ⟨i, g.parent?_of_mem_children mem⟩
  have new : (t.append l.id kind offset).markup t.size = read [] (some kind) := by
    rw [markup_eq ordered', kind?_append inside, if_pos rfl, children_append inside,
      if_neg (Nat.ne_of_gt inside), children_of_size_le (Nat.le_refl _), List.map_nil]
  constructor
  case size => rw [size_append, drawn.size]; rfl
  case bodies =>
    intro name
    rw [owned.said_congr fun i p parent _ => markup_append g here ordered' i ⟨p, parent⟩]
    exact drawn.bodies name
  case layers =>
    intro l' mem'
    obtain ⟨kind_eq, parent_eq⟩ := old l.id inside
    rw [Sketch.say, layers, List.modifyHead_cons] at mem'
    rcases List.mem_cons.1 mem' with rfl | mem'
    · refine ⟨kind_eq.trans here.kind, ?_, ?_⟩
      · show l.kind.state? = _ ∨ (t.append l.id kind offset).parent? l.id = none
        rw [parent_eq]
        exact here.opened
      · show ((t.append l.id kind offset).children l.id).map _ = l.said ++ _
        rw [children_append inside, if_pos rfl, List.map_append, List.map_congr_left (kept l.id), here.said,
          List.map_singleton, new]
    · have there := drawn.layers l' (layers ▸ List.mem_cons_of_mem _ mem')
      have ne := apart l' mem'
      obtain ⟨kind_eq, parent_eq⟩ := old l'.id there.lt_size
      refine there.of_same kind_eq parent_eq ?_ (kept l'.id)
      rw [children_append inside, if_neg ne]

/-- **The innermost block is given up**; the layers around it say what they said. -/
theorem Drawn.abandon (drawn : t.Drawn s { k with layers := l :: around }) {p : NodeId}
    (parent : t.parent? l.id = some p) (apart : ∀ outer ∈ around, outer.id ≠ l.id) :
    (t.setState l.id .abandoned).Drawn s { k with layers := around } := by
  have unclosed := (drawn.layers l (List.mem_cons_self ..)).isUnclosed parent
  constructor
  case size => exact (size_setState ..).trans drawn.size
  case bodies =>
    intro name
    rw [owned.said_congr fun i _ _ _ => markup_abandon g unclosed i]
    exact drawn.bodies name
  case layers =>
    intro l' mem'
    refine (drawn.layers l' (List.mem_cons_of_mem _ mem')).of_same ?_ (parent?_setState ..) (children_setState ..)
      fun child _ => markup_abandon g unclosed child
    rw [kind?_setState, if_neg (Ne.symm (apart l' mem'))]

end Change

/-! ### Closing -/

/-- An arena in which the innermost block was closed: it says what its layer came to, and nothing else changed. -/
structure ClosedIn (t t' : Tree) (l : Layer) : Prop where
  ordered : t'.Ordered
  parent : ∀ i, t'.parent? i = t.parent? i
  kind : ∀ i, i ≠ l.id → t'.kind? i = t.kind? i
  children : ∀ i, i ≠ l.id → t'.children i = t.children i

section Close

variable {t' : Tree} (g : t.Gathered s path) (inside : outer.id ∈ path) (parent : t.parent? l.id = some outer.id)
  (surrounding : outer.Drawn t) (closed : ClosedIn t t' l)
include g parent surrounding closed

omit surrounding closed in
theorem outer_ne : outer.id ≠ l.id := Nat.ne_of_lt (g.rising l.id outer.id parent)

/-- What is below a node still says what it said, except for the block that was closed. -/
theorem ClosedIn.markup (i : NodeId) (held : ∃ p, t.parent? i = some p) (ne : i ≠ l.id) :
    t'.markup i = t.markup i := by
  suffices same : ∀ i, ((∃ p, t.parent? i = some p) ∧ i ≠ l.id) → t.isUnclosed i = true ∧ t'.isUnclosed i = true ∨
      t'.kind? i = t.kind? i ∧ t'.children i = t.children i ∧
        ∀ child ∈ t.children i, (∃ p, t.parent? child = some p) ∧ child ≠ l.id from
    markup_congr g.ordered closed.ordered same i ⟨held, ne⟩
  rintro i ⟨⟨p, above⟩, ne⟩
  by_cases same : i = outer.id
  · subst same
    have unclosed := surrounding.isUnclosed above
    refine .inl ⟨unclosed, ?_⟩
    rwa [isUnclosed, closed.kind _ ne]
  · refine .inr ⟨closed.kind i ne, closed.children i ne, fun child mem => ?_⟩
    have held := g.parent?_of_mem_children mem
    refine ⟨⟨i, held⟩, ?_⟩
    rintro rfl
    rw [parent] at held
    exact same (Option.some.inj held).symm

include inside in
/-- The layers around a closed block: the next one has a last child that now says what the block came to. -/
theorem ClosedIn.layers (now : t'.markup l.id = l.closed) (drawn : ∀ l' ∈ around, l'.Drawn t)
    (apart : ∀ l' ∈ around, l'.id ≠ l.id ∧ l'.id ≠ outer.id) (mem : l.id ∈ path) :
    ∀ l' ∈ (outer :: around).modifyHead (·.correcting l.closed), l'.Drawn t' := by
  have ne := outer_ne g parent
  intro l' mem'
  rw [List.modifyHead_cons] at mem'
  rcases List.mem_cons.1 mem' with rfl | mem'
  · obtain ⟨before, children, absent⟩ := g.children_of_path mem inside parent
    have kept : ∀ child ∈ before, t'.markup child = t.markup child := by
      intro child child_mem
      refine closed.markup g parent surrounding child ⟨outer.id, ?_⟩ fun eq => absent (eq ▸ child_mem)
      exact g.parent?_of_mem_children (children ▸ List.mem_append_left _ child_mem)
    refine ⟨(closed.kind _ ne).trans surrounding.kind, ?_, ?_⟩
    · show outer.kind.state? = _ ∨ t'.parent? outer.id = none
      rw [closed.parent]
      exact surrounding.opened
    · show (t'.children outer.id).map _ = outer.said.dropLast ++ _
      have said := surrounding.said
      rw [children, List.map_append, List.map_singleton] at said
      rw [closed.children _ ne, children, List.map_append, List.map_congr_left kept, List.map_singleton, now, ← said,
        List.dropLast_concat]
  · obtain ⟨ne, ne'⟩ := apart l' mem'
    refine (drawn l' mem').of_same (closed.kind _ ne) (closed.parent _) (closed.children _ ne) fun child child_mem => ?_
    have held := g.parent?_of_mem_children child_mem
    refine closed.markup g parent surrounding child ⟨l'.id, held⟩ ?_
    rintro rfl
    rw [parent] at held
    exact ne' (Option.some.inj held).symm

include inside in
/-- Bodies filed before go on saying the same.  None of them holds the block that was closed: its parent is still
open, and no closed definition. -/
theorem ClosedIn.said (owned : t.Owned s) (name : Text) :
    (s.slot name).bodies.map (Body.said t') = (s.slot name).bodies.map (Body.said t) := by
  refine owned.said_congr (fun i p held isClosed => closed.markup g parent surrounding i ⟨p, held⟩ ?_) name
  rintro rfl
  obtain rfl := Option.some.inj (parent.symm.trans held)
  rw [g.unclosed _ inside] at isClosed
  cases isClosed

/-- So does the content of the closed block. -/
theorem ClosedIn.content (here : l.Drawn t) : (t.children l.id).map t'.markup = l.said := by
  rw [← here.said]
  refine List.map_congr_left fun child mem => ?_
  have held := g.parent?_of_mem_children mem
  exact closed.markup g parent surrounding child ⟨l.id, held⟩ (Nat.ne_of_gt (g.ordered l.id child mem).1)

end Close

section Closing

variable {b : Builder} (g : b.tree.Gathered b.blocks path) (owned : b.tree.Owned b.blocks)
  (drawn : b.tree.Drawn b.blocks { k with layers := l :: outer :: around }) (mem : l.id ∈ path)
  (inside : outer.id ∈ path) (parent : b.tree.parent? l.id = some outer.id)
  (apart : ∀ l' ∈ around, l'.id ≠ l.id ∧ l'.id ≠ outer.id) (ordered' : (b.close l.id).tree.Ordered)
include g owned drawn mem inside parent apart ordered'

/-- **A definition is closed**: its content becomes a body. -/
theorem Drawn.close_definition {name : Text} {attributes : Attributes} {state : BlockState}
    (kind : l.kind = .definition name attributes state) :
    (b.close l.id).tree.Drawn (b.close l.id).blocks (k.close l (outer :: around)) := by
  have here := drawn.layers l (List.mem_cons_self ..)
  have surrounding := drawn.layers outer (List.mem_cons_of_mem _ (List.mem_cons_self ..))
  obtain ⟨tree, blocks⟩ := Builder.close_of_definition (here.kind.trans (congrArg some kind))
  rw [tree] at ordered' ⊢
  have closed : ClosedIn b.tree (Gathered.closing b.tree l.id) l := by
    refine ⟨ordered', Gathered.parent?_closing b.tree l.id, fun i ne => ?_, fun i ne => ?_⟩
    · rw [Gathered.closing, kind?_clearChildren, kind?_setState, if_neg (Ne.symm ne)]
    · rw [Gathered.children_closing, if_neg (Ne.symm ne)]
  have now : (Gathered.closing b.tree l.id).markup l.id = l.closed := by
    rw [markup_eq ordered', Gathered.closing, kind?_clearChildren, kind?_setState, if_pos rfl, here.kind,
      Layer.closed, kind]
    rfl
  constructor
  case size => exact (Gathered.size_closing ..).trans drawn.size
  case layers =>
    refine closed.layers g inside parent surrounding now (fun l' mem' => ?_) apart mem
    exact drawn.layers l' (List.mem_cons_of_mem _ (List.mem_cons_of_mem _ mem'))
  case bodies =>
    intro other
    have before := (closed.said g inside parent surrounding owned other).trans (drawn.bodies other)
    have content := closed.content g parent surrounding here
    show _ = (k.bodies other ++ l.bodyOf other).map _
    rw [blocks, BlockStack.push, Layer.bodyOf_of_definition kind]
    by_cases same : other = name
    · subst same
      rw [BlockStack.slot_modify_same, List.map_append, before, if_pos rfl, List.map_append]
      exact congrArg (fun ms => _ ++ [(true, ms)]) content
    · rw [BlockStack.slot_modify_ne _ _ same, before, if_neg (Ne.symm same), List.append_nil]

/-- **Another block is closed**: no body comes of it. -/
theorem Drawn.close_other (kind : ∀ name attributes state, l.kind ≠ .definition name attributes state) :
    (b.close l.id).tree.Drawn (b.close l.id).blocks (k.close l (outer :: around)) := by
  have here := drawn.layers l (List.mem_cons_self ..)
  have surrounding := drawn.layers outer (List.mem_cons_of_mem _ (List.mem_cons_self ..))
  obtain ⟨tree, blocks⟩ := Builder.close_of_other fun name attributes state eq =>
    kind name attributes state (Option.some.inj (here.kind.symm.trans eq))
  rw [tree] at ordered' ⊢
  rw [blocks]
  have closed : ClosedIn b.tree (b.tree.setState l.id .closed) l := by
    refine ⟨ordered', parent?_setState b.tree l.id .closed, fun i ne => ?_, fun i _ => children_setState ..⟩
    rw [kind?_setState, if_neg (Ne.symm ne)]
  have now : (b.tree.setState l.id .closed).markup l.id = l.closed := by
    rw [markup_eq ordered', kind?_setState, if_pos rfl, here.kind, children_setState, Layer.closed]
    rw [closed.content g parent surrounding here]
    rfl
  constructor
  case size => exact (size_setState ..).trans drawn.size
  case layers =>
    refine closed.layers g inside parent surrounding now (fun l' mem' => ?_) apart mem
    exact drawn.layers l' (List.mem_cons_of_mem _ (List.mem_cons_of_mem _ mem'))
  case bodies =>
    intro other
    have before := (closed.said g inside parent surrounding owned other).trans (drawn.bodies other)
    show _ = (k.bodies other ++ l.bodyOf other).map _
    rw [Layer.bodyOf_of_other kind, List.append_nil]
    exact before

/-- **The innermost block is closed.** -/
theorem Drawn.close : (b.close l.id).tree.Drawn (b.close l.id).blocks (k.close l (outer :: around)) := by
  by_cases isDefinition : ∃ name attributes state, l.kind = .definition name attributes state
  · obtain ⟨name, attributes, state, kind⟩ := isDefinition
    exact drawn.close_definition g owned mem inside parent apart ordered' kind
  · refine drawn.close_other g owned mem inside parent apart ordered' fun name attributes state kind => ?_
    exact isDefinition ⟨name, attributes, state, kind⟩

end Closing

end Tree

/-! ## Tokens -/

namespace Builder

/-- What the tokens read so far have built says what a sketch says. -/
structure Draws (b : Builder) (k : Sketch) : Prop where
  sound : b.Sound
  owned : b.tree.Owned b.blocks
  path : b.openPath = k.layers.map Layer.id
  drawn : b.tree.Drawn b.blocks k

theorem draws_start (source : Text) : (start source {} {}).Draws {} := by
  have parent : Tree.parent? (Tree.addRoot {}) 0 = none := rfl
  constructor
  case sound => exact sound_start source Chain.gathered_empty
  case owned => exact fun _ _ mem => nomatch mem
  case path =>
    show 0 :: Tree.ancestors (Tree.addRoot {}) 0 = _
    rw [Tree.ancestors_of_none parent]
    rfl
  case drawn =>
    refine ⟨rfl, fun l mem => ?_, fun _ => rfl⟩
    obtain rfl := List.mem_singleton.1 mem
    exact ⟨rfl, .inr parent, rfl⟩

variable {b : Builder} {k : Sketch}

/-- The innermost layer is the current block, and the layers around it are its ancestors. -/
theorem Draws.current (draws : b.Draws k) : ∃ l around, k.layers = l :: around ∧ l.id = b.current ∧
    around.map Layer.id = b.tree.ancestors b.current := by
  obtain ⟨l, around, layers, current, rest⟩ := List.map_eq_cons_iff.1 draws.path.symm
  exact ⟨l, around, layers, current, rest⟩

theorem Draws.tag?_eq (draws : b.Draws k) {l : Layer} (mem : l ∈ k.layers) : b.tree.tag? l.id = l.kind.tag? := by
  rw [Tree.tag?, (draws.drawn.layers l mem).kind, Option.bind_some]

/-- The layers around a node come earlier in the arena. -/
theorem ne_of_ancestors {t : Tree} {around : List Layer} {i : NodeId} (above : around.map Layer.id = t.ancestors i) :
    ∀ l ∈ around, l.id ≠ i := by
  intro l mem
  have lt := Tree.lt_of_mem_ancestors (above ▸ List.mem_map_of_mem mem)
  exact Nat.ne_of_lt lt

/-- **A further node**, whatever it is. -/
theorem Draws.add (draws : b.Draws k) {kind : NodeKind} (fresh : kind.closedName? = none) (offset : Nat) :
    (b.add kind offset).Draws (k.say (Tree.read [] (some kind))) := by
  obtain ⟨l, around, layers, current, above⟩ := draws.current
  have inside := inside_current draws.sound
  constructor
  case sound => exact sound_add draws.sound fresh offset
  case owned => exact draws.owned.append inside fresh offset
  case path =>
    rw [openPath_add draws.sound offset, draws.path, Sketch.say, layers]
    rfl
  case drawn =>
    have drawn := draws.drawn.append draws.sound.gathered draws.owned layers (current ▸ ne_of_ancestors above)
      kind offset
    rw [current] at drawn
    exact drawn (gathered_add draws.sound fresh offset).ordered

theorem read_blockKind (tag : Tag) : Tree.read [] (some (blockKind tag)) = .group [] := by
  unfold blockKind
  split <;> rfl

theorem state?_blockKind (tag : Tag) : (blockKind tag).state? = some .opened := by
  unfold blockKind
  split <;> rfl

/-- A block that was just added is a layer with nothing said. -/
theorem drawn_new (sound : b.Sound) (tag : Tag) (offset : Nat) :
    Layer.Drawn (b.add (blockKind tag) offset).tree { id := b.tree.size, kind := blockKind tag } := by
  have inside := inside_current sound
  refine ⟨?_, .inl (state?_blockKind tag), ?_⟩
  · show (b.tree.append b.current (blockKind tag) offset).kind? b.tree.size = _
    rw [Tree.kind?_append inside, if_pos rfl]
  · show ((b.tree.append b.current (blockKind tag) offset).children b.tree.size).map _ = _
    rw [Tree.children_append inside, if_neg (Nat.ne_of_gt inside), Tree.children_of_size_le (Nat.le_refl _)]
    rfl

/-- An opening tag whose block is left open puts a layer on top of the others. -/
theorem Draws.openNested (draws : b.Draws k) (tag : Tag) (offset : Nat) :
    (b.openBlock tag false offset).Draws (k.openBlock tag false) := by
  have fresh := closedName?_blockKind tag
  have added := draws.add fresh offset
  rw [read_blockKind] at added
  have path := added.path
  have size : b.tree.size = k.next := draws.drawn.size
  constructor
  case sound => exact sound_openBlock draws.sound tag false offset
  case owned => exact owned_openBlock draws.sound draws.owned tag false offset
  case path =>
    rw [openPath_add draws.sound offset] at path
    show b.tree.size :: (b.tree.append b.current (blockKind tag) offset).ancestors b.tree.size = _
    rw [Tree.Gathered.ancestors_append_new offset draws.sound.gathered.rising (inside_current draws.sound)]
    show b.tree.size :: b.openPath = k.next :: (k.say (.group [])).layers.map Layer.id
    rw [path, size]
  case drawn =>
    refine ⟨added.drawn.size, fun l mem => ?_, added.drawn.bodies⟩
    rcases List.mem_cons.1 mem with rfl | mem
    · rw [← size]
      exact drawn_new draws.sound tag offset
    · exact added.drawn.layers l mem

/-- A block that closes itself is a layer for a moment. -/
theorem Draws.openClosed (draws : b.Draws k) (tag : Tag) (offset : Nat) :
    (b.openBlock tag true offset).Draws (k.openBlock tag true) := by
  obtain ⟨layers, bodies, next⟩ := k
  obtain rfl : b.tree.size = next := draws.drawn.size
  obtain ⟨outer, around, rfl, current, above⟩ := draws.current
  have fresh := closedName?_blockKind tag
  have inside := inside_current draws.sound
  have added := draws.add fresh offset
  have path := added.path
  have frame := frame_close (b.add (blockKind tag) offset) b.tree.size
  rw [read_blockKind, openPath, ← frame.ancestors, ← frame.current] at path
  have sound : ((b.add (blockKind tag) offset).close b.tree.size).Sound := sound_openBlock draws.sound tag true offset
  refine ⟨sound, owned_openBlock draws.sound draws.owned tag true offset, path, ?_⟩
  have ordered := sound.gathered.ordered
  let opened : Sketch := ⟨outer.saying (.group []) :: around, bodies, b.tree.size + 1⟩
  let l : Layer := ⟨b.tree.size, blockKind tag, []⟩
  have layered := (draws.openNested tag offset).drawn
  have g := gathered_add draws.sound fresh offset
  show ((b.add (blockKind tag) offset).close l.id).tree.Drawn _ (opened.close l (outer.saying (.group []) :: around))
  refine Tree.Drawn.close (k := opened) (l := l) g added.owned layered (List.mem_cons_self ..) ?_ ?_ ?_ ordered
  · exact List.mem_cons_of_mem _ (current ▸ List.mem_cons_self ..)
  · show (b.tree.append b.current (blockKind tag) offset).parent? b.tree.size = some outer.id
    rw [Tree.parent?_append inside, if_pos rfl, current]
  · intro l' mem
    have lt := Tree.lt_of_mem_ancestors (above ▸ List.mem_map_of_mem mem)
    exact ⟨Nat.ne_of_lt (Nat.lt_trans lt inside), Nat.ne_of_lt (current ▸ lt)⟩

theorem Draws.openBlock (draws : b.Draws k) (tag : Tag) (selfClosing : Bool) (offset : Nat) :
    (b.openBlock tag selfClosing offset).Draws (k.openBlock tag selfClosing) := by
  cases selfClosing with
  | false => exact draws.openNested tag offset
  | true => exact draws.openClosed tag offset

/-- Blocks of the open path are given up from the inside out, one layer each. -/
theorem drawn_foldl_abandon {path : List NodeId} {rest : List Layer} (nonempty : rest ≠ []) (inner : List Layer) :
    ∀ (b : Builder) (i : NodeId), b.tree.Gathered b.blocks path → b.tree.Owned b.blocks →
      (∀ l ∈ inner, l.id ∈ path) → (inner ++ rest).map Layer.id = i :: b.tree.ancestors i →
      b.tree.Drawn b.blocks { k with layers := inner ++ rest } →
      ((inner.map Layer.id).foldl abandon b).tree.Drawn ((inner.map Layer.id).foldl abandon b).blocks
        { k with layers := rest } := by
  induction inner with
  | nil => exact fun _ _ _ _ _ _ drawn => drawn
  | cons l inner ih =>
    intro b i g owned mem above drawn
    rw [List.cons_append, List.map_cons] at above
    obtain ⟨rfl, above⟩ := List.cons.inj above
    have here := mem l (List.mem_cons_self ..)
    obtain ⟨p, parent⟩ : ∃ p, b.tree.parent? l.id = some p := by
      cases parent : b.tree.parent? l.id with
      | none =>
        rw [Tree.ancestors_of_none parent, List.map_eq_nil_iff, List.append_eq_nil_iff] at above
        exact absurd above.2 nonempty
      | some p => exact ⟨p, rfl⟩
    have frame := frame_abandon b l.id
    refine ih (b.abandon l.id) p (gathered_abandon g here)
      (owned.setState (g.unclosed l.id here) .abandoned) (fun l' mem' => mem l' (List.mem_cons_of_mem _ mem')) ?_
      (drawn.abandon g owned parent (ne_of_ancestors above))
    rw [frame.ancestors, above, Tree.ancestors_of_parent? g.rising parent]

/-- A closing tag meets the layer `l`, inside of `outer`.  The blocks inside of it are given up first, and what is
there then still says what the layers left say. -/
structure Meets (b : Builder) (k : Sketch) (name : Text) (offset : Nat) (inner : List NodeId) (l outer : Layer)
    (around : List Layer) : Prop where
  layers : k.layers.dropWhile (·.kind.tag? != some name) = l :: outer :: around
  closes : b.closeBlock name offset = { (inner.foldl abandon b).close l.id with current := outer.id }
  frame : Frame b (inner.foldl abandon b)
  gathered : (inner.foldl abandon b).tree.Gathered (inner.foldl abandon b).blocks b.openPath
  owned : (inner.foldl abandon b).tree.Owned (inner.foldl abandon b).blocks
  drawn : (inner.foldl abandon b).tree.Drawn (inner.foldl abandon b).blocks { k with layers := l :: outer :: around }
  mem : l.id ∈ b.openPath
  outer_mem : outer.id ∈ b.openPath
  parent : b.tree.parent? l.id = some outer.id
  above : around.map Layer.id = b.tree.ancestors outer.id

/-- The layers behind the first of a name are those of the open path behind the first of this name. -/
theorem Draws.dropWhile (draws : b.Draws k) {name : Text} {inner : List NodeId} {matched outer : NodeId}
    (path : b.openPath = inner ++ matched :: outer :: b.tree.ancestors outer)
    (found : b.tree.tag? matched = some name) (passed : ∀ id ∈ inner, b.tree.tag? id ≠ some name) :
    ∃ passing l o around, k.layers = passing ++ l :: o :: around ∧ passing.map Layer.id = inner ∧ l.id = matched ∧
      o.id = outer ∧ around.map Layer.id = b.tree.ancestors outer ∧
      k.layers.dropWhile (·.kind.tag? != some name) = l :: o :: around := by
  obtain ⟨passing, rest, layers, inner_eq, rest_eq⟩ := List.map_eq_append_iff.1 (draws.path.symm.trans path)
  obtain ⟨l, rest, rfl, matched_eq, rest_eq⟩ := List.map_eq_cons_iff.1 rest_eq
  obtain ⟨o, around, rfl, outer_eq, around_eq⟩ := List.map_eq_cons_iff.1 rest_eq
  refine ⟨passing, l, o, around, layers, inner_eq, matched_eq, outer_eq, around_eq, ?_⟩
  rw [layers, List.dropWhile_append_of_pos, List.dropWhile_cons_of_neg]
  · rw [← draws.tag?_eq (layers ▸ List.mem_append_right _ (List.mem_cons_self ..)), matched_eq, found]
    simp
  · intro l' mem
    rw [bne_iff_ne, ← draws.tag?_eq (layers ▸ List.mem_append_left _ mem)]
    exact passed l'.id (inner_eq ▸ List.mem_map_of_mem mem)

/-- **What a closing tag meets** among the layers is what it finds on the open path. -/
theorem Draws.meets (draws : b.Draws k) (name : Text) (offset : Nat) :
    (b.closeBlock name offset = (b.note (.unexpectedClosingTag name)).report .unexpectedClosingTag name offset ∧
      k.layers.dropWhile (·.kind.tag? != some name) = []) ∨
    ∃ inner l outer around, b.Meets k name offset inner l outer around := by
  rcases closeBlock_finds draws.sound name offset with
    ⟨eq, none⟩ | ⟨inner, matched, outer, path, -, -, above, eq, found, passed⟩
  · refine .inl ⟨eq, List.dropWhile_eq_nil_iff.2 fun l mem => ?_⟩
    rw [bne_iff_ne, ← draws.tag?_eq mem]
    exact none l.id (draws.path ▸ List.mem_map_of_mem mem)
  · obtain ⟨passing, l, o, around, layers, rfl, rfl, rfl, around_eq, dropped⟩ := draws.dropWhile path found passed
    have g := draws.sound.gathered
    have within : ∀ id ∈ passing.map Layer.id, id ∈ b.openPath := fun id mem => path ▸ List.mem_append_left _ mem
    refine .inr ⟨passing.map Layer.id, l, o, around, ?_⟩
    constructor
    case layers => exact dropped
    case closes => exact eq
    case frame => exact (gathered_foldl_abandon _ b g within).2
    case gathered => exact (gathered_foldl_abandon _ b g within).1
    case owned => exact owned_foldl_abandon _ b g within draws.owned
    case drawn =>
      refine drawn_foldl_abandon (List.cons_ne_nil l _) passing b b.current g draws.owned
        (fun l' mem => within l'.id (List.mem_map_of_mem mem)) ?_ ?_
      · rw [← layers]
        exact draws.path.symm
      · rw [← layers]
        exact draws.drawn
    case mem => exact path ▸ List.mem_append_right _ (List.mem_cons_self ..)
    case outer_mem => exact path ▸ List.mem_append_right _ (List.mem_cons_of_mem _ (List.mem_cons_self ..))
    case parent => exact Tree.parent?_of_ancestors above
    case above => exact around_eq

theorem Draws.closeBlock (draws : b.Draws k) (name : Text) (offset : Nat) :
    (b.closeBlock name offset).Draws (k.closeBlock name) := by
  have sound := sound_closeBlock draws.sound name offset
  have owned := owned_closeBlock draws.sound draws.owned name offset
  unfold Sketch.closeBlock
  rcases draws.meets name offset with ⟨eq, none⟩ | ⟨inner, l, outer, around, meets⟩
  · rw [none]
    rw [eq] at sound owned ⊢
    exact ⟨sound, owned, draws.path, draws.drawn⟩
  · rw [meets.layers]
    rw [meets.closes] at sound owned ⊢
    refine ⟨sound, owned, ?_, ?_⟩
    · show outer.id :: ((inner.foldl abandon b).close l.id).tree.ancestors outer.id = _
      rw [(meets.frame.trans (frame_close _ l.id)).ancestors, ← meets.above]
      rfl
    · refine meets.drawn.close meets.gathered meets.owned meets.mem meets.outer_mem ?_ ?_ sound.gathered.ordered
      · rw [meets.frame.parent, meets.parent]
      · intro l' mem
        have lt := Tree.lt_of_mem_ancestors (meets.above ▸ List.mem_map_of_mem mem)
        have lt' := draws.sound.gathered.rising l.id outer.id meets.parent
        exact ⟨Nat.ne_of_lt (Nat.lt_trans lt lt'), Nat.ne_of_lt lt⟩

/-- A definition that a closing tag meets is closed from then on. -/
theorem Meets.closedName? {name : Text} {offset : Nat} {inner : List NodeId} {l outer : Layer} {around : List Layer}
    (meets : b.Meets k name offset inner l outer around) {n : Text} {attributes : Attributes} {state : BlockState}
    (kind : l.kind = .definition n attributes state) :
    (b.closeBlock name offset).tree.closedName? l.id = some n := by
  have here := (meets.drawn.layers l (List.mem_cons_self ..)).kind
  rw [kind] at here
  rw [meets.closes]
  show ((inner.foldl abandon b).close l.id).tree.closedName? l.id = some n
  rw [(close_of_definition here).1, Tree.Gathered.closedName?_closing here, if_pos rfl]

theorem Draws.pushValue (draws : b.Draws k) (tag : Tag) (offset : Nat) :
    (b.pushValue tag offset).Draws (k.pushValue tag) := by
  unfold Builder.pushValue Sketch.pushValue
  split
  · cases b.extendsTarget with
    | none => exact ⟨draws.sound.of_eq rfl rfl rfl rfl, draws.owned, draws.path, draws.drawn⟩
    | some found => exact draws
  · split
    · have fresh : NodeKind.parentValue.closedName? = none := rfl
      exact draws.add fresh offset
    · have fresh : (NodeKind.value tag.name tag.attributes tag.raw).closedName? = none := rfl
      exact draws.add fresh offset

/-- **Every token does to the arena what it does to the sketch.** -/
theorem Draws.push (draws : b.Draws k) (t : Token) : (b.push t).Draws (k.push t) := by
  unfold Builder.push Sketch.push
  cases t.fragment with
  | text x =>
    have fresh : (NodeKind.text x).closedName? = none := rfl
    exact draws.add fresh t.start
  | tag tag =>
    cases shape : tag.shape with
    | value raw => simpa only [shape] using draws.pushValue tag t.start
    | opening raw selfClosing => simpa only [shape] using draws.openBlock tag selfClosing t.start
    | closing => simpa only [shape] using draws.closeBlock tag.name t.start

theorem Draws.foldl_push (tokens : List Token) :
    ∀ {b : Builder} {k : Sketch}, b.Draws k → (tokens.foldl Builder.push b).Draws (tokens.foldl Sketch.push k) := by
  induction tokens with
  | nil => exact fun draws => draws
  | cons t tokens ih => exact fun draws => ih (draws.push t)

end Builder

/-- **A file on its own says what the sketch of its tokens says.** -/
theorem Tree.drawn_build (tokens : List Token) (source : Text) :
    (build tokens source {} {}).tree.Drawn (build tokens source {} {}).blocks (tokens.foldl Sketch.push {}) := by
  have draws := (Builder.draws_start source).foldl_push tokens
  obtain ⟨tree, blocks, -⟩ := Builder.foldl_reportMissing _ (tokens.foldl Builder.push (Builder.start source {} {}))
  rw [build, Builder.finish, tree, blocks]
  exact draws.drawn

end TagTemplate
