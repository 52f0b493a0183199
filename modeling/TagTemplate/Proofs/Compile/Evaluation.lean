/-
# Proofs.Compile.Evaluation -- compiling comes to an end

The compiler allows itself a depth.  `Evaluates` says what it does without one, by
rules that go on as long as there is something to compile.  A rule only applies where
all that it looks up is there: the node it is about, the place that a body is put back
to, and a cursor that can go back.

So a derivation is a run that ends and in which nothing was missing on the way.  It is
the only one there is: every depth that is large enough gives what it says
(`answer_of_evaluates`, `evaluates_unique`).

There is a derivation for everything that is asked for (`evaluates_node`), also when
bodies contain themselves or the nodes around them.  Down the tree indices grow, and
into a body one fewer is still to be compiled, since nothing is left to compile in its
place meanwhile.  The number of bodies left and the index of the node, in this order,
are what gets smaller.
-/
import TagTemplate.Proofs.Compile.Advance
import TagTemplate.Proofs.Tree.Unclosed

namespace TagTemplate

set_option autoImplicit false

namespace Compiler

variable {σ : Type}

inductive Request where
  | node (id : NodeId)
  | nodes (ids : List NodeId)
  /-- The current body of a name. -/
  | body (name : Text)
  /-- The body above the one being compiled. -/
  | parent
  deriving DecidableEq, Repr

/-- **The rules of compiling**, inside of the bodies of some names. -/
inductive Evaluates (c : Compiler σ) :
    List Text → Request → CompileState σ → Text → CompileState σ → Prop where
  | root {active : List Text} {id : NodeId} {s s' : CompileState σ} {text : Text}
      (kind : c.tree.kind? id = some .root)
      (content : Evaluates c active (.nodes (c.tree.children id)) s text s') : Evaluates c active (.node id) s text s'
  | text {active : List Text} {id : NodeId} {s : CompileState σ} {t : Text}
      (kind : c.tree.kind? id = some (.text t)) : Evaluates c active (.node id) s t s
  | value {active : List Text} {id : NodeId} {s : CompileState σ} {tag raw : Text} {attributes : Attributes}
      (kind : c.tree.kind? id = some (.value tag attributes raw)) :
      Evaluates c active (.node id) s (dispatchValue c.registry id tag attributes raw s).1
        (dispatchValue c.registry id tag attributes raw s).2
  | parentValue {active : List Text} {id : NodeId} {s s' : CompileState σ} {text : Text}
      (kind : c.tree.kind? id = some .parentValue) (above : Evaluates c active .parent s text s') :
      Evaluates c active (.node id) s text s'
  | block {active : List Text} {id : NodeId} {s s' : CompileState σ} {tag content : Text} {attributes : Attributes}
      (kind : c.tree.kind? id = some (.block tag attributes .closed))
      (inner : Evaluates c active (.nodes (c.tree.children id)) s content s') :
      Evaluates c active (.node id) s (dispatchBlock c.registry id tag attributes content s').1
        (dispatchBlock c.registry id tag attributes content s').2
  | definition {active : List Text} {id : NodeId} {s s' : CompileState σ} {name text : Text} {attributes : Attributes}
      (kind : c.tree.kind? id = some (.definition name attributes .closed))
      (body : Evaluates c active (.body name) s text s') : Evaluates c active (.node id) s text s'
  | unclosed {active : List Text} {id : NodeId} {s : CompileState σ} (unclosed : c.tree.isUnclosed id = true) :
      Evaluates c active (.node id) s [] s
  | nil {active : List Text} {s : CompileState σ} : Evaluates c active (.nodes []) s [] s
  | cons {active : List Text} {id : NodeId} {ids : List NodeId} {s s₁ s₂ : CompileState σ} {text rest : Text}
      (first : Evaluates c active (.node id) s text s₁) (others : Evaluates c active (.nodes ids) s₁ rest s₂) :
      Evaluates c active (.nodes (id :: ids)) s (text ++ rest) s₂
  | missing {active : List Text} {name : Text} {s : CompileState σ}
      (next : (s.blocks.slot name).bodies[(s.blocks.slot name).cursor]? = none) :
      Evaluates c active (.body name) s [] s
  | compiled {active : List Text} {name output : Text} {s : CompileState σ}
      (next : (s.blocks.slot name).bodies[(s.blocks.slot name).cursor]? = some (.compiled output)) :
      Evaluates c active (.body name) s output s
  /-- The nodes of a body are compiled, the cursor goes back and their text is put in the place of the body. -/
  | pending {active : List Text} {name output : Text} {ids : List NodeId} {s s' : CompileState σ} {position : Nat}
      (cursor : (s.blocks.slot name).cursor = position)
      (next : (s.blocks.slot name).bodies[position]? = some (.pending ids))
      (inner : Evaluates c (name :: active) (.nodes ids) (entered s name position) output s')
      (goes_back : 0 < (s'.blocks.slot name).cursor) (there : position < (s'.blocks.slot name).bodies.length) :
      Evaluates c active (.body name) s output
        { s' with blocks := s'.blocks.leave name position (.compiled output) }
  | outside {s : CompileState σ} : Evaluates c [] .parent s [] s
  | above {active : List Text} {name text : Text} {s s' : CompileState σ}
      (body : Evaluates c (name :: active) (.body name) s text s') : Evaluates c (name :: active) .parent s text s'

def answer (c : Compiler σ) (depth : Nat) (active : List Text) : Request → Step σ Text
  | .node id => nodeWith .text c depth active id
  | .nodes ids => concat (nodeWith .text c depth active) ids
  | .body name => resolveWith .text (nodeWith .text c depth) active name
  | .parent => parentWith .text (nodeWith .text c depth) active

variable {c : Compiler σ}

/-! ## A node with a depth left -/

section Node

variable {depth : Nat} {active : List Text} {id : NodeId}

theorem nodeWith_of_root (kind : c.tree.kind? id = some .root) :
    nodeWith .text c (depth + 1) active id = concat (nodeWith .text c depth active) (c.tree.children id) := by
  rw [nodeWith, kind]

theorem nodeWith_of_text {t : Text} (kind : c.tree.kind? id = some (.text t)) :
    nodeWith .text c (depth + 1) active id = pure t := by
  rw [nodeWith, kind]

theorem nodeWith_of_value {tag raw : Text} {attributes : Attributes}
    (kind : c.tree.kind? id = some (.value tag attributes raw)) :
    nodeWith .text c (depth + 1) active id = dispatchValue c.registry id tag attributes raw := by
  rw [nodeWith, kind]
  rfl

theorem nodeWith_of_parentValue (kind : c.tree.kind? id = some .parentValue) :
    nodeWith .text c (depth + 1) active id = parentWith .text (nodeWith .text c depth) active := by
  rw [nodeWith, kind]

theorem nodeWith_of_block {tag : Text} {attributes : Attributes}
    (kind : c.tree.kind? id = some (.block tag attributes .closed)) :
    nodeWith .text c (depth + 1) active id =
      concat (nodeWith .text c depth active) (c.tree.children id) >>=
        dispatchBlock c.registry id tag attributes := by
  rw [nodeWith, kind]
  rfl

theorem nodeWith_of_definition {name : Text} {attributes : Attributes}
    (kind : c.tree.kind? id = some (.definition name attributes .closed)) :
    nodeWith .text c (depth + 1) active id = resolveWith .text (nodeWith .text c depth) active name := by
  rw [nodeWith, kind]

theorem nodeWith_of_unclosed (unclosed : c.tree.isUnclosed id = true) :
    nodeWith .text c (depth + 1) active id = pure [] := by
  unfold Tree.isUnclosed at unclosed
  rw [nodeWith]
  cases kind : c.tree.kind? id with
  | none => rfl
  | some k =>
    rw [kind] at unclosed
    cases k with
    | block tag attributes state => cases state <;> first | rfl | cases unclosed
    | definition name attributes state => cases state <;> first | rfl | cases unclosed
    | _ => cases unclosed

end Node

/-! ## Derivations are runs -/

/-- **Every depth that is large enough gives what a derivation says.** -/
theorem answer_of_evaluates {active : List Text} {r : Request} {s s' : CompileState σ} {text : Text}
    (evaluates : c.Evaluates active r s text s') :
    ∃ enough, ∀ depth, enough ≤ depth → c.answer depth active r s = (text, s') := by
  -- A node takes one more than what it asks for.
  have deeper {active : List Text} {id : NodeId} {s s' : CompileState σ} {text : Text} (enough : Nat)
      (eq : ∀ depth, enough ≤ depth → nodeWith .text c (depth + 1) active id s = (text, s')) :
      ∃ enough, ∀ depth, enough ≤ depth → c.answer depth active (.node id) s = (text, s') := by
    refine ⟨enough + 1, fun depth le => ?_⟩
    obtain ⟨less, rfl⟩ := Nat.exists_eq_add_of_le' (Nat.le_trans (Nat.le_add_left 1 enough) le)
    exact eq less (Nat.le_of_succ_le_succ le)
  induction evaluates with
  | root kind _ ih =>
    obtain ⟨enough, content⟩ := ih
    refine deeper enough fun depth le => ?_
    rw [nodeWith_of_root kind]
    exact content depth le
  | text kind =>
    refine deeper 0 fun depth _ => ?_
    rw [nodeWith_of_text kind]
    rfl
  | value kind =>
    refine deeper 0 fun depth _ => ?_
    rw [nodeWith_of_value kind]
    rfl
  | parentValue kind _ ih =>
    obtain ⟨enough, above⟩ := ih
    refine deeper enough fun depth le => ?_
    rw [nodeWith_of_parentValue kind]
    exact above depth le
  | @block active id s s' tag content attributes kind _ ih =>
    obtain ⟨enough, inner⟩ := ih
    refine deeper enough fun depth le => ?_
    have run : concat (nodeWith .text c depth active) (c.tree.children id) s = (content, s') := inner depth le
    rw [nodeWith_of_block kind]
    show dispatchBlock c.registry id tag attributes (concat (nodeWith .text c depth active) (c.tree.children id) s).1
      (concat (nodeWith .text c depth active) (c.tree.children id) s).2 = _
    rw [run]
    rfl
  | definition kind _ ih =>
    obtain ⟨enough, body⟩ := ih
    refine deeper enough fun depth le => ?_
    rw [nodeWith_of_definition kind]
    exact body depth le
  | unclosed unclosed =>
    refine deeper 0 fun depth _ => ?_
    rw [nodeWith_of_unclosed unclosed]
    rfl
  | nil => exact ⟨0, fun _ _ => rfl⟩
  | @cons active id ids s s₁ s₂ text rest _ _ ih ih' =>
    obtain ⟨enough, first⟩ := ih
    obtain ⟨enough', others⟩ := ih'
    refine ⟨max enough enough', fun depth le => ?_⟩
    have run : nodeWith .text c depth active id s = (text, s₁) := first depth (Nat.le_trans (Nat.le_max_left ..) le)
    have run' : concat (nodeWith .text c depth active) ids s₁ = (rest, s₂) :=
      others depth (Nat.le_trans (Nat.le_max_right ..) le)
    show ((nodeWith .text c depth active id s).1
        ++ (concat (nodeWith .text c depth active) ids (nodeWith .text c depth active id s).2).1,
      (concat (nodeWith .text c depth active) ids (nodeWith .text c depth active id s).2).2) = _
    rw [run, run']
  | missing next => exact ⟨0, fun _ _ => resolveWith_of_none next⟩
  | compiled next => exact ⟨0, fun _ _ => resolveWith_of_compiled next⟩
  | @pending active name output ids s s' position cursor next _ _ _ ih =>
    obtain ⟨enough, inner⟩ := ih
    refine ⟨enough, fun depth le => ?_⟩
    have run : concat (nodeWith .text c depth (name :: active)) ids (entered s name position) = (output, s') :=
      inner depth le
    show resolveWith .text (nodeWith .text c depth) active name s = _
    rw [resolveWith_of_pending cursor next, run]
    rfl
  | outside => exact ⟨0, fun _ _ => rfl⟩
  | above _ ih => exact ih

/-- **There is one derivation at most.** -/
theorem evaluates_unique {active : List Text} {r : Request} {s s₁ s₂ : CompileState σ} {text₁ text₂ : Text}
    (one : c.Evaluates active r s text₁ s₁) (two : c.Evaluates active r s text₂ s₂) : (text₁, s₁) = (text₂, s₂) := by
  obtain ⟨enough, eq⟩ := answer_of_evaluates one
  obtain ⟨enough', eq'⟩ := answer_of_evaluates two
  rw [← eq (max enough enough') (Nat.le_max_left ..), ← eq' (max enough enough') (Nat.le_max_right ..)]

/-! ## There is a derivation -/

/-- The nodes of the bodies are there, and at most so many bodies are still to be compiled. -/
structure Fits (c : Compiler σ) (pending : Nat) (s : CompileState σ) : Prop where
  inside : ∀ name ids, .pending ids ∈ (s.blocks.slot name).bodies → ∀ id ∈ ids, id < c.tree.size
  few : s.blocks.pendingCount ≤ pending

variable {pending depth : Nat}

theorem Fits.advance {s s' : CompileState σ} (fits : c.Fits pending s) (advances : s.blocks.Advances s'.blocks) :
    c.Fits pending s' where
  inside name ids mem := by
    obtain ⟨level, found⟩ := List.mem_iff_getElem?.1 mem
    exact fits.inside name ids (List.mem_of_getElem? (advances.pending name level ids found))
  few := Nat.le_trans advances.fewer fits.few

/-- Inside of a body one fewer is left. -/
theorem Fits.enter {s : CompileState σ} (fits : c.Fits pending s) {name : Text} {ids : List NodeId}
    (next : (s.blocks.slot name).bodies[(s.blocks.slot name).cursor]? = some (.pending ids)) :
    ∃ fewer < pending, c.Fits fewer (entered s name (s.blocks.slot name).cursor) := by
  have fewer := BlockStack.pendingCount_enter next
  have few := fits.few
  refine ⟨(s.blocks.enter name (s.blocks.slot name).cursor).pendingCount, by omega, ?_, Nat.le_refl _⟩
  intro other ids' mem
  by_cases same : other = name
  · subst same
    simp only [entered, BlockStack.slot_enter] at mem
    rcases List.mem_or_eq_of_mem_set mem with mem | eq
    · exact fits.inside other ids' mem
    · cases eq
  · simp only [entered, BlockStack.slot_enter_ne _ _ same] at mem
    exact fits.inside other ids' mem

theorem evaluates_nodes {active : List Text} {ids : List NodeId}
    (each : ∀ id ∈ ids, ∀ s, c.Fits pending s →
      c.Evaluates active (.node id) s (nodeWith .text c depth active id s).1 (nodeWith .text c depth active id s).2) :
    ∀ s, c.Fits pending s → c.Evaluates active (.nodes ids) s (concat (nodeWith .text c depth active) ids s).1
      (concat (nodeWith .text c depth active) ids s).2 := by
  induction ids with
  | nil => exact fun _ _ => .nil
  | cons id ids ih =>
    intro s fits
    have first := each id (List.mem_cons_self ..) s fits
    have advances := advancing_nodeWith .text c depth active id s
    exact .cons first (ih (fun i mem => each i (List.mem_cons_of_mem _ mem)) _ (fits.advance advances))

/-- A body can be compiled if nodes can, with one body fewer to come to. -/
theorem evaluates_body (enough : pending * (c.tree.size + 1) ≤ depth)
    (node : ∀ active fewer id s, id < c.tree.size → c.Fits fewer s →
      fewer * (c.tree.size + 1) + (c.tree.size - id) < depth →
      c.Evaluates active (.node id) s (nodeWith .text c depth active id s).1 (nodeWith .text c depth active id s).2)
    (active : List Text) (name : Text) (s : CompileState σ) (fits : c.Fits pending s) :
    c.Evaluates active (.body name) s (resolveWith .text (nodeWith .text c depth) active name s).1
      (resolveWith .text (nodeWith .text c depth) active name s).2 := by
  cases next : (s.blocks.slot name).bodies[(s.blocks.slot name).cursor]? with
  | none =>
    rw [resolveWith_of_none next]
    exact .missing next
  | some body =>
    cases body with
    | compiled output =>
      rw [resolveWith_of_compiled next]
      exact .compiled next
    | pending ids =>
      obtain ⟨fewer, less, fits'⟩ := fits.enter next
      have room := Nat.mul_le_mul_right (c.tree.size + 1) less
      rw [Nat.succ_mul] at room
      have inside := fits.inside name ids (List.mem_of_getElem? next)
      have inner : c.Evaluates (name :: active) (.nodes ids) _ _ _ :=
        evaluates_nodes (fun id mem s fits => node (name :: active) fewer id s (inside id mem) fits (by omega)) _ fits'
      have advances : (s.blocks.enter name (s.blocks.slot name).cursor).Advances _ :=
        advancing_concat .text c depth (name :: active) ids (entered s name (s.blocks.slot name).cursor)
      rw [resolveWith_of_pending rfl next]
      refine .pending rfl next inner ?_ ?_
      · rw [advances.cursor_inside]
        exact Nat.succ_pos _
      · rw [advances.length_inside]
        exact (List.getElem?_eq_some_iff.1 next).1

/-- **At every node there is a derivation**, of what a depth gives that is enough for the bodies left to compile and
for the nodes behind this one. -/
theorem evaluates_node (ordered : c.tree.Ordered) (depth : Nat) :
    ∀ active pending id s, id < c.tree.size → c.Fits pending s →
      pending * (c.tree.size + 1) + (c.tree.size - id) < depth →
      c.Evaluates active (.node id) s (nodeWith .text c depth active id s).1
        (nodeWith .text c depth active id s).2 := by
  induction depth with
  | zero => exact fun _ _ _ _ _ _ deep => absurd deep (Nat.not_lt_zero _)
  | succ depth ih =>
    intro active pending id s there fits deep
    have below : c.Evaluates active (.nodes (c.tree.children id)) s
        (concat (nodeWith .text c depth active) (c.tree.children id) s).1
        (concat (nodeWith .text c depth active) (c.tree.children id) s).2 :=
      evaluates_nodes (fun child mem s fits => ih active pending child s (ordered id child mem).2 fits (by
        have := (ordered id child mem).1
        omega)) s fits
    have body : ∀ active name s, c.Fits pending s → c.Evaluates active (.body name) s
        (resolveWith .text (nodeWith .text c depth) active name s).1
        (resolveWith .text (nodeWith .text c depth) active name s).2 := evaluates_body (by omega) ih
    cases kind : c.tree.kind? id with
    | none =>
      rw [Tree.kind?, Option.map_eq_none_iff, Tree.node?_eq_none_iff] at kind
      exact absurd there (Nat.not_lt_of_le kind)
    | some k =>
      cases k with
      | root =>
        rw [nodeWith_of_root kind]
        exact .root kind below
      | text t =>
        rw [nodeWith_of_text kind]
        exact .text kind
      | value tag attributes raw =>
        rw [nodeWith_of_value kind]
        exact .value kind
      | parentValue =>
        rw [nodeWith_of_parentValue kind]
        refine .parentValue kind ?_
        cases active with
        | nil => exact .outside
        | cons name active => exact .above (body (name :: active) name s fits)
      | block tag attributes state =>
        by_cases closed : state = .closed
        · subst closed
          rw [nodeWith_of_block kind]
          exact .block kind below
        · have unclosed : c.tree.isUnclosed id = true := by
            rw [Tree.isUnclosed, kind]
            exact bne_iff_ne.2 closed
          rw [nodeWith_of_unclosed unclosed]
          exact .unclosed unclosed
      | definition name attributes state =>
        by_cases closed : state = .closed
        · subst closed
          rw [nodeWith_of_definition kind]
          exact .definition kind (body active name s fits)
        · have unclosed : c.tree.isUnclosed id = true := by
            rw [Tree.isUnclosed, kind]
            exact bne_iff_ne.2 closed
          rw [nodeWith_of_unclosed unclosed]
          exact .unclosed unclosed

end Compiler

end TagTemplate
