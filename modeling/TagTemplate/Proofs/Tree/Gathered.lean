/-
# Proofs.Tree.Gathered -- the block stack holds what closed definitions held

A closed definition has lost its children: they became a body on the block stack.
The arena still knows them, since they still name it as their parent (`offspring`).
`Gathered` ties the two together while a tree is built.  It also says what is
special about the open path, the nodes that are still open and the root:

* nothing on it is closed, so no node is ever added below a closed definition;
* every node that was added after one of its nodes lies below that node.

The bodies of a name come in the order in which its definitions were closed.  That
is the order of their indices when no definition contains another (`Flat`): a
definition with a larger index than one that is being closed would lie below it.

Each of the four ways to change the arena keeps this.
-/
import TagTemplate.Proofs.BlockStack
import TagTemplate.Proofs.Tree

namespace TagTemplate

set_option autoImplicit false

def NodeKind.closedName? : NodeKind → Option Text
  | .definition name _ .closed => some name
  | _ => none

theorem NodeKind.closedName?_of_settled {kind : NodeKind} (settled : kind.state? = none) : kind.closedName? = none := by
  cases kind <;> first | rfl | cases settled

theorem NodeKind.tag?_of_settled {kind : NodeKind} (settled : kind.state? = none) : kind.tag? = none := by
  cases kind <;> first | rfl | cases settled

namespace Tree

def closedName? (t : Tree) (id : NodeId) : Option Text := (t.kind? id).bind (·.closedName?)

/-- The nodes that name a node as their parent, in the order they were added. -/
def offspring (t : Tree) (id : NodeId) : List NodeId :=
  (List.range t.size).filter fun i => t.parent? i == some id

/-- The closed definitions of a name, in the order they were added. -/
def definitions (t : Tree) (name : Text) : List NodeId :=
  (List.range t.size).filter fun i => t.closedName? i == some name

/-- No closed definition contains another one. -/
def Flat (t : Tree) : Prop :=
  ∀ id outer, outer ∈ t.ancestors id → (t.closedName? id).isSome → t.closedName? outer = none

theorem flat_iff (t : Tree) :
    t.Flat ↔ ∀ id < t.size, ∀ outer ∈ t.ancestors id, (t.closedName? id).isSome → t.closedName? outer = none :=
  ⟨fun flat id _ outer mem => flat id outer mem,
    fun flat id outer mem => flat id (lt_size_of_mem_ancestors mem) outer mem⟩

instance (t : Tree) : Decidable t.Flat := decidable_of_iff _ t.flat_iff.symm

/-- The block stack holds what closed definitions held, and the nodes of a path are open. -/
structure Gathered (t : Tree) (s : BlockStack) (path : List NodeId) : Prop where
  rising : t.Rising
  children : ∀ id, t.children id = if (t.closedName? id).isSome then [] else t.offspring id
  cursor : ∀ name, (s.slot name).cursor = 0
  bodies : t.Flat → ∀ name, (s.slot name).bodies = (t.definitions name).map fun id => .pending (t.offspring id)
  inside : ∀ p : Nat, p ∈ path → p < t.size
  unclosed : ∀ p ∈ path, t.closedName? p = none
  around : ∀ p : Nat, p ∈ path → ∀ i : Nat, p < i → i < t.size → p ∈ t.ancestors i

theorem mem_offspring_iff (t : Tree) (id i : NodeId) : i ∈ t.offspring id ↔ t.parent? i = some id := by
  rw [offspring, List.mem_filter, List.mem_range, beq_iff_eq]
  exact ⟨fun h => h.2, fun h => ⟨lt_size_of_parent? h, h⟩⟩

theorem closedName?_of_size_le {t : Tree} {i : NodeId} (le : t.size ≤ i) : t.closedName? i = none := by
  rw [closedName?, kind?_of_size_le le, Option.bind_none]

namespace Gathered

variable {t : Tree} {s : BlockStack} {path : List NodeId}

theorem parent?_of_mem_children (g : t.Gathered s path) {i child : NodeId} (mem : child ∈ t.children i) :
    t.parent? child = some i := by
  rw [g.children] at mem
  split at mem
  · cases mem
  · exact (mem_offspring_iff ..).1 mem

theorem sublist (g : t.Gathered s path) {fewer : List NodeId} (sub : ∀ p ∈ fewer, p ∈ path) :
    t.Gathered s fewer where
  rising := g.rising
  children := g.children
  cursor := g.cursor
  bodies := g.bodies
  inside p mem := g.inside p (sub p mem)
  unclosed p mem := g.unclosed p (sub p mem)
  around p mem := g.around p (sub p mem)

/-! ## Arenas that read the same -/

/-- What is asked of an arena and its nodes is the same, whatever the open path is. -/
theorem of_same (g : t.Gathered s path) {t' : Tree} {path' : List NodeId} (parent : ∀ i, t'.parent? i = t.parent? i)
    (closed : ∀ i, t'.closedName? i = t.closedName? i) (children : ∀ i, t'.children i = t.children i)
    (offspring : ∀ id, t'.offspring id = t.offspring id)
    (definitions : ∀ name, t'.definitions name = t.definitions name) (inside : ∀ p : Nat, p ∈ path' → p < t'.size)
    (unclosed : ∀ p ∈ path', t.closedName? p = none)
    (around : ∀ p : Nat, p ∈ path' → ∀ i : Nat, p < i → i < t'.size → p ∈ t.ancestors i) : t'.Gathered s path' := by
  have ancestors : ∀ i, t'.ancestors i = t.ancestors i := fun i => ancestors_congr i fun j _ => parent j
  have flat : t'.Flat → t.Flat := by
    intro flat id outer mem isSome
    rw [← closed] at isSome ⊢
    exact flat id outer (by rwa [ancestors]) isSome
  constructor
  case rising =>
    intro i p eq
    exact g.rising i p (by rwa [← parent])
  case children =>
    intro id
    rw [children, closed, offspring, g.children]
  case cursor => exact g.cursor
  case bodies =>
    intro flat' name
    simp only [definitions, offspring, g.bodies (flat flat')]
  case inside => exact inside
  case unclosed =>
    intro p mem
    rw [closed]
    exact unclosed p mem
  case around =>
    intro p mem i lt lt'
    rw [ancestors]
    exact around p mem i lt lt'

theorem closedName?_setState (t : Tree) (id : NodeId) (state : BlockState) (i : NodeId) :
    (t.setState id state).closedName? i =
      if id = i then (t.kind? i).bind fun k => (k.withState state).closedName? else t.closedName? i := by
  rw [closedName?, kind?_setState]
  split
  · rw [Option.bind_map]; rfl
  · rfl

/-- A node of the path that is no closed definition in its new state either. -/
theorem setState (g : t.Gathered s path) {id : NodeId} {state : BlockState} (mem : id ∈ path)
    (unclosed : (t.kind? id).bind (fun k => (k.withState state).closedName?) = none) :
    (t.setState id state).Gathered s path := by
  have closed : ∀ i, (t.setState id state).closedName? i = t.closedName? i := by
    intro i
    rw [closedName?_setState]
    split
    · rename_i eq
      subst eq
      rw [unclosed, g.unclosed id mem]
    · rfl
  apply g.of_same (parent?_setState t id state) closed (children_setState t id state)
  · intro i
    simp only [Tree.offspring, size_setState, parent?_setState]
  · intro name
    simp only [Tree.definitions, size_setState, closed]
  · intro p mem
    rw [size_setState]
    exact g.inside p mem
  · exact g.unclosed
  · intro p mem i lt lt'
    rw [size_setState] at lt'
    exact g.around p mem i lt lt'

/-! ## A further root or node -/

theorem closedName?_addRoot (t : Tree) (i : NodeId) : t.addRoot.closedName? i = t.closedName? i := by
  rw [closedName?, kind?_addRoot]
  split
  · rename_i eq
    rw [closedName?_of_size_le (Nat.le_of_eq eq.symm)]
    rfl
  · rfl

theorem addRoot (g : t.Gathered s []) : t.addRoot.Gathered s [t.size] := by
  apply g.of_same (parent?_addRoot t) (closedName?_addRoot t) (children_addRoot t)
  · intro id
    rw [Tree.offspring, size_addRoot, List.range_succ, List.filter_append]
    simp [Tree.offspring, parent?_addRoot, parent?_of_size_le (Nat.le_refl t.size)]
  · intro name
    rw [Tree.definitions, size_addRoot, List.range_succ, List.filter_append]
    simp [Tree.definitions, closedName?_addRoot, closedName?_of_size_le (Nat.le_refl t.size)]
  · intro p mem
    rw [List.mem_singleton.1 mem, size_addRoot]
    exact Nat.lt_succ_self _
  · intro p mem
    rw [List.mem_singleton.1 mem, closedName?_of_size_le (Nat.le_refl _)]
  · intro p mem i lt lt'
    rw [List.mem_singleton.1 mem] at lt
    rw [size_addRoot] at lt'
    omega

section Append

variable {current : NodeId} {kind : NodeKind} (offset : Nat)

theorem ancestors_append_of_lt (inside : current < t.size) {i : Nat} (lt : i < t.size) :
    (t.append current kind offset).ancestors i = t.ancestors i :=
  ancestors_congr i fun j le => by
    rw [parent?_append inside, if_neg (Nat.ne_of_lt (Nat.lt_of_le_of_lt le lt))]

theorem closedName?_append (inside : current < t.size) (fresh : kind.closedName? = none) (i : NodeId) :
    (t.append current kind offset).closedName? i = t.closedName? i := by
  rw [closedName?, kind?_append inside]
  split
  · rename_i eq
    rw [closedName?_of_size_le (Nat.le_of_eq eq.symm), Option.bind_some, fresh]
  · rfl

theorem offspring_append (inside : current < t.size) (id : NodeId) :
    (t.append current kind offset).offspring id =
      if id = current then t.offspring id ++ [t.size] else t.offspring id := by
  have old : ∀ i ∈ List.range t.size, ((t.append current kind offset).parent? i == some id) = (t.parent? i == some id) :=
    fun i mem => by rw [parent?_append inside, if_neg (Nat.ne_of_lt (List.mem_range.1 mem))]
  rw [Tree.offspring, size_append, List.range_succ, List.filter_append, List.filter_congr old]
  have new : (t.append current kind offset).parent? t.size = some current := by
    rw [parent?_append inside, if_pos rfl]
  by_cases same : id = current
  · simp [Tree.offspring, new, same]
  · simp [Tree.offspring, new, same, Ne.symm same]

theorem definitions_append (inside : current < t.size) (fresh : kind.closedName? = none) (name : Text) :
    (t.append current kind offset).definitions name = t.definitions name := by
  rw [Tree.definitions, size_append, List.range_succ, List.filter_append]
  simp [Tree.definitions, closedName?_append offset inside fresh, closedName?_of_size_le (Nat.le_refl t.size)]

theorem rising_append (rising : t.Rising) (inside : current < t.size) : (t.append current kind offset).Rising := by
  intro i p eq
  rw [parent?_append inside] at eq
  split at eq
  · rename_i new
    obtain rfl := Option.some.inj eq
    exact new ▸ inside
  · exact rising i p eq

theorem ancestors_append_new (rising : t.Rising) (inside : current < t.size) :
    (t.append current kind offset).ancestors t.size = current :: t.ancestors current := by
  have parent : (t.append current kind offset).parent? t.size = some current := by
    rw [parent?_append inside, if_pos rfl]
  rw [ancestors_of_parent? (rising_append offset rising inside) parent, ancestors_append_of_lt offset inside inside]

theorem flat_of_flat_append (inside : current < t.size) (fresh : kind.closedName? = none)
    (flat : (t.append current kind offset).Flat) : t.Flat := by
  intro id outer mem isSome
  rw [← closedName?_append offset inside fresh] at isSome ⊢
  apply flat id outer _ isSome
  rwa [ancestors_append_of_lt offset inside (lt_size_of_mem_ancestors mem)]

/-- A node below the innermost open one; it is on the open path itself from then on. -/
theorem append (g : t.Gathered s (current :: t.ancestors current)) (fresh : kind.closedName? = none) :
    (t.append current kind offset).Gathered s
      (t.size :: (t.append current kind offset).ancestors t.size) := by
  have inside : current < t.size := g.inside current (List.mem_cons_self ..)
  have closed := closedName?_append (t := t) offset inside fresh
  have new : (t.append current kind offset).ancestors t.size = current :: t.ancestors current :=
    ancestors_append_new offset g.rising inside
  rw [new]
  constructor
  case rising => exact rising_append offset g.rising inside
  case children =>
    intro id
    rw [children_append inside, closed, offspring_append offset inside, g.children]
    by_cases same : id = current
    · rw [if_pos same, if_pos same, same, g.unclosed current (List.mem_cons_self ..)]
      rfl
    · rw [if_neg same, if_neg same]
  case cursor => exact g.cursor
  case bodies =>
    intro flat' name
    rw [g.bodies (flat_of_flat_append offset inside fresh flat'), definitions_append offset inside fresh]
    apply List.map_congr_left
    intro id mem
    have isClosed : t.closedName? id = some name := by simpa using (List.mem_filter.1 mem).2
    rw [offspring_append offset inside, if_neg]
    rintro rfl
    rw [g.unclosed id (List.mem_cons_self ..)] at isClosed
    cases isClosed
  case inside =>
    intro p mem
    rw [size_append]
    rcases List.mem_cons.1 mem with rfl | mem
    · exact Nat.lt_succ_self _
    · exact Nat.lt_succ_of_lt (g.inside p mem)
  case unclosed =>
    intro p mem
    rw [closed]
    rcases List.mem_cons.1 mem with rfl | mem
    · exact closedName?_of_size_le (Nat.le_refl _)
    · exact g.unclosed p mem
  case around =>
    intro p mem i lt lt'
    rw [size_append] at lt'
    rcases List.mem_cons.1 mem with rfl | mem
    · omega
    · by_cases last : i = t.size
      · rw [last, new]
        exact mem
      · have old : i < t.size := by omega
        rw [ancestors_append_of_lt offset inside old]
        exact g.around p mem i lt old

end Append

/-! ## A definition is closed -/

section Close

variable {id : NodeId} {name : Text}

/-- The arena after a definition was closed and its children became a body. -/
def closing (t : Tree) (id : NodeId) : Tree := (t.setState id .closed).clearChildren id

theorem size_closing (t : Tree) (id : NodeId) : (closing t id).size = t.size := by
  rw [closing, size_clearChildren, size_setState]

theorem parent?_closing (t : Tree) (id i : NodeId) : (closing t id).parent? i = t.parent? i := by
  rw [closing, parent?_clearChildren, parent?_setState]

theorem children_closing (t : Tree) (id i : NodeId) :
    (closing t id).children i = if id = i then [] else t.children i := by
  rw [closing, children_clearChildren, children_setState]

theorem ancestors_closing (t : Tree) (id i : NodeId) : (closing t id).ancestors i = t.ancestors i :=
  ancestors_congr i fun j _ => parent?_closing t id j

theorem offspring_closing (t : Tree) (id i : NodeId) : (closing t id).offspring i = t.offspring i := by
  simp only [Tree.offspring, size_closing, parent?_closing]

theorem closedName?_closing {attributes : Attributes} {state : BlockState}
    (kind : t.kind? id = some (.definition name attributes state)) (i : NodeId) :
    (closing t id).closedName? i = if id = i then some name else t.closedName? i := by
  have cleared : (closing t id).closedName? i = (t.setState id .closed).closedName? i := by
    rw [closedName?, closing, kind?_clearChildren, closedName?]
  rw [cleared, closedName?_setState]
  split
  · rename_i eq
    rw [← eq, kind]
    rfl
  · rfl

/-- Where no definition contains another, the one that is being closed is the last of its name. -/
theorem filter_range_closing {closed closed' : Nat → Option Text} {id : Nat} (was : closed id = none)
    (is : closed' id = some name) (same : ∀ i, i ≠ id → closed' i = closed i)
    (size : Nat) (last : ∀ i, id < i → i < size → closed i = none) :
    ((List.range size).filter fun i => closed' i == some name) =
      ((List.range size).filter fun i => closed i == some name) ++ if id < size then [id] else [] := by
  induction size with
  | zero => rfl
  | succ size ih =>
    have before := ih fun i lt lt' => last i lt (Nat.lt_succ_of_lt lt')
    rw [List.range_succ, List.filter_append, List.filter_append, before]
    rcases Nat.lt_trichotomy id size with lt | rfl | lt
    · have later : closed size = none := last size lt (Nat.lt_succ_self _)
      simp [same size (Nat.ne_of_gt lt), later, lt, Nat.lt_succ_of_lt lt]
    · simp [was, is]
    · rw [if_neg (Nat.not_lt_of_lt lt), if_neg (Nat.not_lt_of_le (Nat.succ_le_of_lt lt)), List.append_nil,
        List.append_nil]
      simp only [List.filter_cons, List.filter_nil, same size (Nat.ne_of_lt lt)]

/-- The definitions of other names are the same. -/
theorem definitions_closing_ne {attributes : Attributes} {state : BlockState}
    (kind : t.kind? id = some (.definition name attributes state)) (unclosed : t.closedName? id = none)
    {other : Text} (ne : other ≠ name) : (closing t id).definitions other = t.definitions other := by
  rw [Tree.definitions, size_closing, Tree.definitions]
  apply List.filter_congr
  intro i _
  rw [closedName?_closing kind]
  split
  · rename_i eq
    rw [← eq, unclosed]
    simpa using Ne.symm ne
  · rfl

theorem flat_of_flat_closing {attributes : Attributes} {state : BlockState}
    (kind : t.kind? id = some (.definition name attributes state)) (flat : (closing t id).Flat) : t.Flat := by
  intro i outer outer_mem isSome
  have isSome' : ((closing t id).closedName? i).isSome := by
    rw [closedName?_closing kind]
    split
    · rfl
    · exact isSome
  have none := flat i outer (by rwa [ancestors_closing]) isSome'
  rw [closedName?_closing kind] at none
  split at none
  · cases none
  · exact none

/-- A closed definition with a larger index would lie below the one that is being closed. -/
theorem unclosed_of_flat_closing (g : t.Gathered s path) (mem : id ∈ path) {attributes : Attributes}
    {state : BlockState} (kind : t.kind? id = some (.definition name attributes state))
    (flat : (closing t id).Flat) : ∀ i : Nat, id < i → i < t.size → t.closedName? i = none := by
  intro i lt lt'
  cases found : t.closedName? i with
  | none => rfl
  | some other =>
    have isSome : ((closing t id).closedName? i).isSome := by
      rw [closedName?_closing kind, if_neg (Nat.ne_of_lt lt), found]
      rfl
    have around : id ∈ (closing t id).ancestors i := by
      rw [ancestors_closing]
      exact g.around id mem i lt lt'
    have none := flat i id around isSome
    rw [closedName?_closing kind, if_pos rfl] at none
    cases none

theorem definitions_closing_same (g : t.Gathered s path) (mem : id ∈ path) {attributes : Attributes}
    {state : BlockState} (kind : t.kind? id = some (.definition name attributes state))
    (flat : (closing t id).Flat) : (closing t id).definitions name = t.definitions name ++ [id] := by
  have is : (closing t id).closedName? id = some name := by rw [closedName?_closing kind, if_pos rfl]
  have same : ∀ i, i ≠ id → (closing t id).closedName? i = t.closedName? i := by
    intro i ne
    rw [closedName?_closing kind, if_neg (Ne.symm ne)]
  rw [Tree.definitions, size_closing, filter_range_closing (g.unclosed id mem) is same t.size
    (unclosed_of_flat_closing g mem kind flat), if_pos (g.inside id mem)]
  rfl

/-- **A definition of the path is closed**: its children become the last body of its name. -/
theorem close (g : t.Gathered s path) (mem : id ∈ path) {attributes : Attributes} {state : BlockState}
    (kind : t.kind? id = some (.definition name attributes state)) {left : List NodeId}
    (sub : ∀ p ∈ left, p ∈ path ∧ p ≠ id) :
    (closing t id).Gathered (s.push name (t.children id)) left := by
  have closed := closedName?_closing kind
  have held : t.children id = t.offspring id := by
    rw [g.children, g.unclosed id mem]
    rfl
  constructor
  case rising =>
    intro i p eq
    exact g.rising i p (by rwa [← parent?_closing])
  case children =>
    intro i
    rw [children_closing, closed, offspring_closing, g.children]
    split <;> rfl
  case cursor =>
    intro other
    by_cases same : other = name
    · rw [same, BlockStack.push, BlockStack.slot_modify_same]
      exact g.cursor name
    · rw [BlockStack.push, BlockStack.slot_modify_ne _ _ same, g.cursor]
  case bodies =>
    intro flat' other
    simp only [offspring_closing]
    have bodies := g.bodies (flat_of_flat_closing kind flat')
    by_cases same : other = name
    · rw [same, BlockStack.push, BlockStack.slot_modify_same, definitions_closing_same g mem kind flat', bodies,
        List.map_append, held]
      rfl
    · rw [BlockStack.push, BlockStack.slot_modify_ne _ _ same, definitions_closing_ne kind (g.unclosed id mem) same,
        bodies]
  case inside =>
    intro p p_mem
    rw [size_closing]
    exact g.inside p (sub p p_mem).1
  case unclosed =>
    intro p p_mem
    rw [closed, if_neg (Ne.symm (sub p p_mem).2)]
    exact g.unclosed p (sub p p_mem).1
  case around =>
    intro p p_mem i lt lt'
    rw [ancestors_closing]
    exact g.around p (sub p p_mem).1 i lt (by rwa [← size_closing t id])

end Close

end Gathered

/-! ## Reading the arena -/

/-- Children have larger indices and are there, however the tree was built. -/
theorem Gathered.ordered {t : Tree} {s : BlockStack} {path : List NodeId} (g : t.Gathered s path) (id child : Nat)
    (mem : child ∈ t.children id) : id < child ∧ child < t.size := by
  rw [g.children] at mem
  split at mem
  · cases mem
  · have parent := (mem_offspring_iff ..).1 mem
    exact ⟨g.rising child id parent, lt_size_of_parent? parent⟩

end Tree

end TagTemplate
