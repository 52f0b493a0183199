/-
# Proofs.Compile.BodyText -- the text of a body where it is asked for

The text of a block body depends on where it is asked for: the names whose bodies
are being compiled there, innermost first, decide which body of each name comes
next.  `bodyText` says what the text is, by recursion on the bodies that are left
(`remaining`), without cursors, parked bodies or texts that were kept.

Only the names that can be reached from a body matter for its text
(`bodyText_congr`).  Where no two names reach each other, the names around a body
therefore do not: its text is that of its level (`bodyText_eq_levelText`).
-/
import Mathlib.Algebra.GroupWithZero.Nat
import Mathlib.Algebra.Order.BigOperators.Group.List
import Mathlib.Algebra.Order.Group.Nat
import Mathlib.Logic.Relation
import TagTemplate.Compile
import TagTemplate.Proofs.BlockStack
import TagTemplate.Proofs.Compile.Markup

namespace TagTemplate

set_option autoImplicit false

/-! ## Bodies as markup -/

/-- What a body says: its nodes, or the text that they were compiled to. -/
def Body.markup (t : Tree) : Body → List Markup
  | .pending ids => ids.map t.markup
  | .compiled output => [.text output]

namespace BlockStack

/-- Whether a body of one name asks for the current body of another. -/
def Contains (s : BlockStack) (t : Tree) (name other : Text) : Prop :=
  ∃ body ∈ (s.slot name).bodies, other ∈ Markup.namesOf (body.markup t)

/-- Whether compiling a body of one name can ask for a body of another. -/
def Reaches (s : BlockStack) (t : Tree) : Text → Text → Prop := Relation.ReflTransGen (s.Contains t)

/-- No two names contain each other, directly or through other names. -/
def Layered (s : BlockStack) (t : Tree) : Prop :=
  ∀ name other, s.Reaches t name other → s.Reaches t other name → name = other

/-- How many bodies are left inside of the bodies of some names. -/
def remaining (s : BlockStack) (active : List Text) : Nat :=
  (s.slots.map fun p => p.2.bodies.length - active.count p.1).sum

theorem remaining_cons_lt {s : BlockStack} {active : List Text} {name : Text}
    (inside : active.count name < (s.slot name).bodies.length) :
    s.remaining (name :: active) < s.remaining active := by
  obtain ⟨p, mem, rfl, eq⟩ := exists_slot_of_mem_bodies (List.getElem_mem inside)
  apply List.sum_lt_sum
  · intro q _
    have := List.count_le_count_cons (a := q.1) (b := p.1) (l := active)
    omega
  · refine ⟨p, mem, ?_⟩
    rw [List.count_cons_self, eq]
    omega

end BlockStack

/-! ## Tags under their handlers -/

namespace Registry

variable {σ : Type}

/-- The handlers leave their state alone. -/
structure Pure (r : Registry σ) : Prop where
  block : ∀ tag h, r.blockHandler? tag = some h → ∀ attributes content state,
    (h attributes content state).2 = state
  value : ∀ tag h, r.valueHandler? tag = some h → ∀ attributes raw state,
    (h attributes raw state).2 = state

/-- What handlers in a state turn tags into; a tag without a handler is nothing. -/
def sense (r : Registry σ) (state : σ) : Sense where
  block tag attributes content := ((r.blockHandler? tag).map fun h => (h attributes content state).1).getD []
  value tag attributes raw := ((r.valueHandler? tag).map fun h => (h attributes raw state).1).getD []
  parent := []
  definition _ := []

end Registry

namespace Compiler

variable {σ : Type} (c : Compiler σ) (start : CompileState σ)

/-! ## The text of a body -/

/-- The text of the next body of a name, asked for inside of the bodies of other names. -/
def bodyText (active : List Text) (name : Text) : Text :=
  match _next : (start.blocks.slot name).bodies[active.count name]? with
  | none => []
  | some body =>
    Markup.meanings
      { c.registry.sense start.handlers with
        parent := bodyText (name :: active) name
        definition := fun other => bodyText (name :: active) other }
      (body.markup c.tree)
termination_by start.blocks.remaining active
decreasing_by all_goals exact BlockStack.remaining_cons_lt (List.getElem?_eq_some_iff.1 _next).1

/-- What tags stand for inside of the bodies of some names. -/
def senseIn (active : List Text) : Sense :=
  { c.registry.sense start.handlers with
    parent := (active.head?.map (c.bodyText start active)).getD []
    definition := c.bodyText start active }

/-- The text of a body at a level, inside of the bodies of its name above it only. -/
def levelText (name : Text) (level : Nat) : Text := c.bodyText start (List.replicate level name) name

variable {c start}

theorem bodyText_of_none {active : List Text} {name : Text}
    (next : (start.blocks.slot name).bodies[active.count name]? = none) :
    c.bodyText start active name = [] := by
  rw [bodyText]
  split
  · rfl
  · simp_all

theorem bodyText_of_some {active : List Text} {name : Text} {body : Body}
    (next : (start.blocks.slot name).bodies[active.count name]? = some body) :
    c.bodyText start active name
      = Markup.meanings (c.senseIn start (name :: active)) (body.markup c.tree) := by
  rw [bodyText]
  split
  · simp_all
  · rename_i found
    obtain rfl : body = _ := Option.some.inj (next.symm.trans found)
    rfl

/-! ## What it depends on -/

theorem alike_senseIn {name : Text} {active active' : List Text}
    (parent : c.bodyText start (name :: active) name = c.bodyText start (name :: active') name) :
    Markup.Sense.Alike (c.senseIn start (name :: active)) (c.senseIn start (name :: active')) :=
  ⟨rfl, rfl, parent⟩

/-- **Only the names that a body can reach matter for its text.** -/
theorem bodyText_congr {active active' : List Text} {name : Text}
    (same : ∀ other, start.blocks.Reaches c.tree name other → active.count other = active'.count other) :
    c.bodyText start active name = c.bodyText start active' name := by
  have here := same name .refl
  cases next : (start.blocks.slot name).bodies[active.count name]? with
  | none => rw [bodyText_of_none next, bodyText_of_none (here ▸ next)]
  | some body =>
    obtain ⟨inside, eq⟩ := List.getElem?_eq_some_iff.1 next
    -- Both lists grow by the same name, so what is reachable from there has equal counts still.
    have inner : ∀ other, start.blocks.Reaches c.tree name other →
        c.bodyText start (name :: active) other = c.bodyText start (name :: active') other := by
      intro other reached
      apply bodyText_congr
      intro further reached'
      rw [List.count_cons, List.count_cons, same further (reached.trans reached')]
    rw [bodyText_of_some next, bodyText_of_some (here ▸ next)]
    apply Markup.meanings_congr (alike_senseIn (inner name .refl))
    intro other mem
    exact inner other (.single ⟨body, eq ▸ List.getElem_mem inside, mem⟩)
termination_by start.blocks.remaining active
decreasing_by exact BlockStack.remaining_cons_lt inside

/-- **In a layered stack the names around a body do not matter**, only how many bodies of its own
name there are among them. -/
theorem bodyText_eq_levelText (layered : start.blocks.Layered c.tree) {active : List Text} {name : Text}
    (around : ∀ outer ∈ active, start.blocks.Reaches c.tree outer name) :
    c.bodyText start active name = c.levelText start name (active.count name) := by
  apply bodyText_congr
  intro other reached
  by_cases same : other = name
  · rw [same, List.count_replicate_self]
  · have absent : other ∉ active := fun mem => same (layered other name (around other mem) reached)
    rw [List.count_eq_zero_of_not_mem absent, List.count_replicate, if_neg (by simpa using Ne.symm same)]

end Compiler

end TagTemplate
