/-
# Proofs.Tree -- what each change of the arena leaves as it was

The arena is changed in four ways: a root is added, a node is added below
another, a block is put into a state, and a node loses its children.  For each
there is one equation for what is asked of a node afterwards: its kind, its
parent and its children.

`ancestors` follows parents as long as the index falls.  Where every parent has
the smaller index, it follows all of them (`ancestors_of_parent?`), and it
depends on the parents up to its start alone (`ancestors_congr`).
-/
import TagTemplate.Tree

namespace TagTemplate

set_option autoImplicit false

namespace Tree

/-! ## Nodes -/

theorem node?_modify (t : Tree) (id : NodeId) (f : Node → Node) (i : NodeId) :
    (t.modify id f).node? i = if id = i then (t.node? i).map f else t.node? i :=
  Array.getElem?_modify

theorem node?_push (t : Tree) (n : Node) (i : NodeId) :
    Tree.node? ⟨t.nodes.push n⟩ i = if i = t.size then some n else t.node? i :=
  Array.getElem?_push

theorem node?_eq_none_iff (t : Tree) (i : NodeId) : t.node? i = none ↔ t.size ≤ i :=
  Array.getElem?_eq_none_iff

@[simp] theorem size_addRoot (t : Tree) : t.addRoot.size = t.size + 1 := Array.size_push _

@[simp] theorem size_append (t : Tree) (parent : NodeId) (kind : NodeKind) (offset : Nat) :
    (t.append parent kind offset).size = t.size + 1 :=
  Array.size_modify.trans (Array.size_push _)

@[simp] theorem size_setState (t : Tree) (id : NodeId) (s : BlockState) : (t.setState id s).size = t.size :=
  Array.size_modify

@[simp] theorem size_clearChildren (t : Tree) (id : NodeId) : (t.clearChildren id).size = t.size :=
  Array.size_modify

/-! ## Beyond the end -/

theorem kind?_of_size_le {t : Tree} {i : NodeId} (le : t.size ≤ i) : t.kind? i = none := by
  rw [kind?, (t.node?_eq_none_iff i).2 le, Option.map_none]

theorem parent?_of_size_le {t : Tree} {i : NodeId} (le : t.size ≤ i) : t.parent? i = none := by
  rw [parent?, (t.node?_eq_none_iff i).2 le, Option.bind_none]

theorem children_of_size_le {t : Tree} {i : NodeId} (le : t.size ≤ i) : t.children i = [] := by
  rw [children, (t.node?_eq_none_iff i).2 le, Option.map_none, Option.getD_none]

theorem lt_size_of_parent? {t : Tree} {i p : Nat} (parent : t.parent? i = some p) : i < t.size := by
  refine Nat.lt_of_not_le fun le => ?_
  rw [parent?_of_size_le le] at parent
  cases parent

/-! ## A further root -/

theorem kind?_addRoot (t : Tree) (i : NodeId) :
    t.addRoot.kind? i = if i = t.size then some .root else t.kind? i := by
  rw [kind?, addRoot, node?_push]
  split <;> rfl

theorem parent?_addRoot (t : Tree) (i : NodeId) : t.addRoot.parent? i = t.parent? i := by
  rw [parent?, addRoot, node?_push]
  split
  · rename_i eq
    rw [parent?_of_size_le (Nat.le_of_eq eq.symm), Option.bind_some]
  · rfl

theorem children_addRoot (t : Tree) (i : NodeId) : t.addRoot.children i = t.children i := by
  rw [children, addRoot, node?_push]
  split
  · rename_i eq
    rw [children_of_size_le (Nat.le_of_eq eq.symm), Option.map_some, Option.getD_some]
  · rfl

/-! ## A further node -/

section Append

variable {t : Tree} {parent : NodeId} (inside : parent < t.size) (kind : NodeKind) (offset : Nat)
include inside

theorem node?_append (i : NodeId) :
    (t.append parent kind offset).node? i =
      if i = t.size then some ⟨kind, some parent, [], offset⟩
      else if i = parent then (t.node? i).map fun n => { n with children := n.children ++ [t.size] }
      else t.node? i := by
  rw [append, node?_modify, node?_push]
  by_cases new : i = t.size
  · rw [if_pos new, if_pos new, if_neg fun eq => Nat.ne_of_lt inside (eq.trans new)]
  · rw [if_neg new, if_neg new]
    by_cases same : i = parent
    · rw [if_pos same, if_pos same.symm]
    · rw [if_neg same, if_neg (Ne.symm same)]

theorem kind?_append (i : NodeId) :
    (t.append parent kind offset).kind? i = if i = t.size then some kind else t.kind? i := by
  rw [kind?, node?_append inside]
  split
  · rfl
  · split
    · rw [Option.map_map]; rfl
    · rfl

theorem parent?_append (i : NodeId) :
    (t.append parent kind offset).parent? i = if i = t.size then some parent else t.parent? i := by
  rw [parent?, node?_append inside]
  split
  · rfl
  · split
    · rw [Option.bind_map]; rfl
    · rfl

theorem children_append (i : NodeId) :
    (t.append parent kind offset).children i = if i = parent then t.children i ++ [t.size] else t.children i := by
  rw [children, node?_append inside]
  by_cases new : i = t.size
  · rw [if_pos new, if_neg fun eq => Nat.ne_of_lt inside (eq.symm.trans new),
      children_of_size_le (Nat.le_of_eq new.symm), Option.map_some, Option.getD_some]
  · rw [if_neg new]
    by_cases same : i = parent
    · rw [if_pos same, if_pos same, Option.map_map]
      subst same
      rw [children]
      cases found : t.node? i with
      | none => exact absurd ((t.node?_eq_none_iff i).1 found) (Nat.not_le_of_lt inside)
      | some n => rfl
    · rw [if_neg same, if_neg same, children]

end Append

/-! ## A state -/

theorem kind?_setState (t : Tree) (id : NodeId) (s : BlockState) (i : NodeId) :
    (t.setState id s).kind? i = if id = i then (t.kind? i).map (·.withState s) else t.kind? i := by
  rw [kind?, setState, node?_modify]
  split
  · rw [kind?, Option.map_map, Option.map_map]; rfl
  · rfl

theorem parent?_setState (t : Tree) (id : NodeId) (s : BlockState) (i : NodeId) :
    (t.setState id s).parent? i = t.parent? i := by
  rw [parent?, setState, node?_modify]
  split
  · rw [Option.bind_map]; rfl
  · rfl

theorem children_setState (t : Tree) (id : NodeId) (s : BlockState) (i : NodeId) :
    (t.setState id s).children i = t.children i := by
  rw [children, setState, node?_modify]
  split
  · rw [Option.map_map]; rfl
  · rfl

/-! ## No children -/

theorem kind?_clearChildren (t : Tree) (id i : NodeId) : (t.clearChildren id).kind? i = t.kind? i := by
  rw [kind?, clearChildren, node?_modify]
  split
  · rw [Option.map_map]; rfl
  · rfl

theorem parent?_clearChildren (t : Tree) (id i : NodeId) : (t.clearChildren id).parent? i = t.parent? i := by
  rw [parent?, clearChildren, node?_modify]
  split
  · rw [Option.bind_map]; rfl
  · rfl

theorem children_clearChildren (t : Tree) (id i : NodeId) :
    (t.clearChildren id).children i = if id = i then [] else t.children i := by
  rw [children, clearChildren, node?_modify]
  split
  · cases t.node? i <;> rfl
  · rfl

/-! ## Ancestors -/

/-- Parents have smaller indices. -/
def Rising (t : Tree) : Prop := ∀ i p : Nat, t.parent? i = some p → p < i

theorem ancestors_of_parent? {t : Tree} (rising : t.Rising) {i p : NodeId} (parent : t.parent? i = some p) :
    t.ancestors i = p :: t.ancestors p := by
  rw [ancestors.eq_def, parent]
  exact if_pos (rising i p parent)

theorem ancestors_of_none {t : Tree} {i : NodeId} (parent : t.parent? i = none) : t.ancestors i = [] := by
  rw [ancestors.eq_def, parent]

theorem ancestors_congr {t t' : Tree} (id : Nat) (same : ∀ i : Nat, i ≤ id → t.parent? i = t'.parent? i) :
    t.ancestors id = t'.ancestors id := by
  rw [ancestors.eq_def, ancestors.eq_def, same id (Nat.le_refl _)]
  split
  · rename_i p _
    split
    · rename_i lt
      rw [ancestors_congr p fun i le => same i (Nat.le_trans le (Nat.le_of_lt lt))]
    · rfl
  · rfl
termination_by id

theorem lt_of_mem_ancestors {t : Tree} {i p : Nat} (mem : p ∈ t.ancestors i) : p < i := by
  rw [ancestors.eq_def] at mem
  split at mem
  · rename_i q _
    split at mem
    · rename_i lt
      rcases List.mem_cons.1 mem with rfl | mem
      · exact lt
      · exact Nat.lt_trans (lt_of_mem_ancestors mem) lt
    · cases mem
  · cases mem
termination_by i

theorem mem_ancestors_trans {t : Tree} {i p q : Nat} (upper : q ∈ t.ancestors p) (lower : p ∈ t.ancestors i) :
    q ∈ t.ancestors i := by
  rw [ancestors.eq_def] at lower ⊢
  split at lower
  · rename_i r parent
    split at lower
    · rename_i lt
      rw [if_pos lt]
      rcases List.mem_cons.1 lower with rfl | lower
      · exact List.mem_cons_of_mem _ upper
      · exact List.mem_cons_of_mem _ (mem_ancestors_trans upper lower)
    · cases lower
  · cases lower
termination_by i

/-- A path from a node up goes on from each of its nodes. -/
theorem ancestors_of_split {t : Tree} {p : NodeId} {after : List NodeId} (before : List NodeId) :
    ∀ id, id :: t.ancestors id = before ++ p :: after → after = t.ancestors p := by
  induction before with
  | nil =>
    intro id split
    obtain ⟨rfl, rfl⟩ := List.cons.inj split
    rfl
  | cons first before ih =>
    intro id split
    have tail := (List.cons.inj split).2
    rw [ancestors.eq_def] at tail
    split at tail
    · split at tail
      · exact ih _ tail
      · simp at tail
    · simp at tail

theorem lt_size_of_mem_ancestors {t : Tree} {i p : Nat} (mem : p ∈ t.ancestors i) : i < t.size := by
  rw [ancestors.eq_def] at mem
  split at mem
  · rename_i parent
    exact lt_size_of_parent? parent
  · cases mem

end Tree

end TagTemplate
