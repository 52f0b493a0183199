/-
# Proofs.Compile.Markup -- what a node says, and what it means

A node of the arena is read as a piece of `Markup`: the tags and the text from
that node down, without indices, offsets and states (`Tree.markup`).  A closed
definition is only its name there, since its body is a matter of the block
stack, and a block that was never closed says nothing.

A `Sense` gives the tags their meaning.  Under a sense a piece of markup is a
text, by recursion on the markup (`meaning`), and only the names that it
mentions matter (`meaning_congr`).

The recursion of `Tree.markup` goes down the arena, where indices have to grow.
`Tree.Ordered` says that they do; then `Tree.markup_eq` reads a node from its
children with no condition left.
-/
import TagTemplate.Tree

namespace TagTemplate

set_option autoImplicit false

/-! ## Markup -/

/-- Tags and text, without the indices of the arena. -/
inductive Markup where
  | text (t : Text)
  | value (tag : Text) (attributes : Attributes) (raw : Text)
  /-- The place of the body that the current one overrides. -/
  | parent
  | block (tag : Text) (attributes : Attributes) (content : List Markup)
  /-- The place of the current body of a name. -/
  | definition (name : Text)
  | group (content : List Markup)

/-- What tags stand for. -/
structure Sense where
  /-- The text of a block tag, from its attributes and the text of its content. -/
  block : Text → Attributes → Text → Text
  /-- The text of a value tag, from its attributes and their raw text. -/
  value : Text → Attributes → Text → Text
  /-- The text of the body above the current one. -/
  parent : Text
  /-- The text of the current body of a name. -/
  definition : Text → Text

namespace Markup

mutual

def meaning (s : Sense) : Markup → Text
  | .text t => t
  | .value tag attributes raw => s.value tag attributes raw
  | .parent => s.parent
  | .block tag attributes content => s.block tag attributes (meanings s content)
  | .definition name => s.definition name
  | .group content => meanings s content

def meanings (s : Sense) : List Markup → Text
  | [] => []
  | m :: ms => meaning s m ++ meanings s ms

end

mutual

/-- The names that a piece of markup asks the current body of. -/
def names : Markup → List Text
  | .text _ | .value .. | .parent => []
  | .definition name => [name]
  | .block _ _ content | .group content => namesOf content

def namesOf : List Markup → List Text
  | [] => []
  | m :: ms => names m ++ namesOf ms

end

theorem mem_namesOf_iff (name : Text) (ms : List Markup) :
    name ∈ namesOf ms ↔ ∃ m ∈ ms, name ∈ m.names := by
  induction ms with
  | nil => simp [namesOf]
  | cons m ms ih => simp [namesOf, ih]

/-! ## Only the names that are mentioned matter -/

/-- Two senses that turn block and value tags into the same text, and agree on the body above. -/
structure Sense.Alike (s s' : Sense) : Prop where
  block : s.block = s'.block
  value : s.value = s'.value
  parent : s.parent = s'.parent

mutual

theorem meaning_congr {s s' : Sense} (alike : Sense.Alike s s') (m : Markup)
    (same : ∀ name ∈ m.names, s.definition name = s'.definition name) : m.meaning s = m.meaning s' := by
  cases m with
  | text t => rfl
  | value tag attributes raw => simp only [meaning, alike.value]
  | parent => simp only [meaning, alike.parent]
  | definition name => exact same name (by simp [names])
  | block tag attributes content =>
    simp only [meaning, alike.block]
    rw [meanings_congr alike content same]
  | group content => exact meanings_congr alike content same

theorem meanings_congr {s s' : Sense} (alike : Sense.Alike s s') (ms : List Markup)
    (same : ∀ name ∈ namesOf ms, s.definition name = s'.definition name) :
    meanings s ms = meanings s' ms := by
  cases ms with
  | nil => rfl
  | cons m ms =>
    simp only [meanings]
    rw [meaning_congr alike m fun name mem => same name (List.mem_append_left _ mem),
      meanings_congr alike ms fun name mem => same name (List.mem_append_right _ mem)]

end

end Markup

/-! ## Reading the arena -/

namespace Tree

/-- Children have larger indices than their parents, and are there. -/
def Ordered (t : Tree) : Prop :=
  ∀ id child : Nat, child ∈ t.children id → id < child ∧ child < t.size

def read (content : List Markup) : Option NodeKind → Markup
  | some (.text x) => .text x
  | some (.value tag attributes raw) => .value tag attributes raw
  | some .parentValue => .parent
  | some (.block tag attributes .closed) => .block tag attributes content
  | some (.definition name _ .closed) => .definition name
  | some .root => .group content
  | none | some (.block ..) | some (.definition ..) => .group []

def markup (t : Tree) (id : NodeId) : Markup :=
  read ((t.children id).map fun child =>
    if _inside : id < child ∧ child < t.size then markup t child else .group []) (t.kind? id)
termination_by t.size - id
decreasing_by exact Nat.sub_lt_sub_left (Nat.lt_trans _inside.1 _inside.2) _inside.1

theorem markup_eq {t : Tree} (ordered : t.Ordered) (id : NodeId) :
    t.markup id = read ((t.children id).map t.markup) (t.kind? id) := by
  rw [markup.eq_def]
  congr 1
  apply List.map_congr_left
  intro child mem
  rw [dif_pos (ordered id child mem)]

end Tree

end TagTemplate
