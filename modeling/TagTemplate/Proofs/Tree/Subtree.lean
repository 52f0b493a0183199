/-
# Proofs.Tree.Subtree -- what lies below a root and below bodies

From a node one comes to its children and to theirs (`Tree.subtree`).  A closed
definition has none any more: the nodes that it held, and what is below them, belong to
a body on the block stack.

A node that is held in one place only is come to in one way only.  So below the root of
a chain and below the nodes of all its bodies, taken together, every node is once
(`nodup_subtrees`).
-/
import TagTemplate.Proofs.Compile.Markup
import TagTemplate.Proofs.Tree.Ownership

namespace TagTemplate

set_option autoImplicit false

namespace Tree

variable {t : Tree} {s : BlockStack}

def subtree (t : Tree) (id : NodeId) : List NodeId :=
  id :: (t.children id).flatMap fun child => if _inside : id < child ∧ child < t.size then subtree t child else []
termination_by t.size - id
decreasing_by exact Nat.sub_lt_sub_left (Nat.lt_trans _inside.1 _inside.2) _inside.1

theorem subtree_eq (ordered : t.Ordered) (id : NodeId) : t.subtree id = id :: (t.children id).flatMap t.subtree := by
  rw [subtree.eq_def]
  congr 1
  exact List.flatMap_congr fun child mem => dif_pos (ordered id child mem)

/-- What is below some nodes is those nodes and the children of all that is below them. -/
theorem perm_flatMap_subtree {ids : List NodeId}
    (each : ∀ id ∈ ids, (t.subtree id).Perm (id :: (t.subtree id).flatMap t.children)) :
    (ids.flatMap t.subtree).Perm (ids ++ (ids.flatMap t.subtree).flatMap t.children) := by
  induction ids with
  | nil => exact .refl _
  | cons id ids ih =>
    have first := each id (List.mem_cons_self ..)
    have rest := ih fun i mem => each i (List.mem_cons_of_mem _ mem)
    rw [List.flatMap_cons, List.flatMap_append, List.cons_append]
    refine (first.append rest).trans ?_
    rw [List.cons_append]
    exact (List.perm_append_comm_assoc ..).cons id

theorem perm_subtree (ordered : t.Ordered) (id : NodeId) :
    (t.subtree id).Perm (id :: (t.subtree id).flatMap t.children) := by
  induction id using subtree.induct t with
  | case1 id ih =>
    have below := perm_flatMap_subtree fun child mem => ih child (ordered id child mem)
    rw [subtree_eq ordered id, List.flatMap_cons]
    exact below.cons id

/-! ## Every node once -/

/-- An element that only one of some lists has. -/
theorem count_flatMap_of_unique {f : NodeId → List NodeId} {i p : NodeId} (ids : List NodeId)
    (unique : ∀ id ∈ ids, i ∈ f id → id = p) : (ids.flatMap f).count i = ids.count p * (f p).count i := by
  induction ids with
  | nil => exact (Nat.zero_mul _).symm
  | cons id ids ih =>
    rw [List.flatMap_cons, List.count_append, ih fun id mem => unique id (List.mem_cons_of_mem _ mem)]
    by_cases same : id = p
    · subst same
      rw [List.count_cons_self, Nat.succ_mul, Nat.add_comm]
    · rw [List.count_cons_of_ne same,
        List.count_eq_zero.2 fun mem => same (unique id (List.mem_cons_self ..) mem), Nat.zero_add]

/-- **Each node is once below a root and the nodes of all bodies.** -/
theorem Filed.nodup_subtrees {closings empty : List NodeId} (filed : t.Filed s closings empty) {root : NodeId}
    (rooted : t.parent? root = none) : ((root :: s.bodies.flatMap Body.nodes).flatMap t.subtree).Nodup := by
  have g := filed.gathered
  have held_once : (t.held s).Nodup := filed.perm_held.nodup_iff.2 (nodup_offspring t)
  have perm := perm_flatMap_subtree fun id (_ : id ∈ root :: s.bodies.flatMap Body.nodes) =>
    perm_subtree g.ordered id
  generalize (root :: s.bodies.flatMap Body.nodes).flatMap t.subtree = all at perm ⊢
  refine List.nodup_iff_count_le_one.2 fun i => ?_
  -- A node is as often in there as its parent is, and parents come before their children.
  induction i using Nat.strong_induction_on with
  | _ i ih =>
    have count := perm.count_eq i
    rw [List.count_append] at count
    have once := List.nodup_iff_count_le_one.1 held_once i
    rw [held, List.count_append] at once
    cases parent : t.parent? i with
    | none =>
      have body : (s.bodies.flatMap Body.nodes).count i = 0 := by
        refine List.count_eq_zero.2 fun mem => ?_
        obtain ⟨p, some⟩ := (filed.mem_held_iff i).1 (List.mem_append_right _ mem)
        exact Option.some_ne_none p (some.symm.trans parent)
      have below : (all.flatMap t.children).count i = 0 := by
        refine List.count_eq_zero.2 fun mem => ?_
        obtain ⟨p, -, mem⟩ := List.mem_flatMap.1 mem
        exact Option.some_ne_none p ((g.parent?_of_mem_children mem).symm.trans parent)
      rw [List.count_cons, body, below] at count
      split at count <;> omega
    | some p =>
      have lt : p < i := g.rising i p parent
      have unique : ∀ (ids : List NodeId), ∀ id ∈ ids, i ∈ t.children id → id = p := fun _ id _ mem =>
        Option.some.inj ((g.parent?_of_mem_children mem).symm.trans parent)
      have below := count_flatMap_of_unique all (unique all)
      have of_parent := count_flatMap_of_unique (List.range t.size) (unique _)
      rw [List.count_eq_one_of_mem List.nodup_range
        (List.mem_range.2 (Nat.lt_trans lt (lt_size_of_parent? parent))), Nat.one_mul] at of_parent
      have above := Nat.mul_le_mul_right ((t.children p).count i) (ih p lt)
      rw [Nat.one_mul] at above
      have ne : root ≠ i := fun same => Option.some_ne_none p (parent.symm.trans (same ▸ rooted))
      rw [List.count_cons_of_ne ne] at count
      omega

end Tree

end TagTemplate
