/-
# Proofs.Compile.Resolved -- a resolved name stays resolved

Outside of all bodies every cursor is at the first body of its name, the one of the most
concrete file.  Once that body is compiled (`Draft.Settled`) the name is its text, and
asking for it again runs no handler and changes nothing (`resolve_of_settled`).

Nothing takes a first body away from its name: further bodies come behind it, nodes that
are changed or lose their children are not looked at any more, and runs of a compiler
keep what is compiled at or behind a cursor.  So a name that was resolved has the same
text after any changes (`resolve_again`).
-/
import TagTemplate.Proofs.Compile.Draft

namespace TagTemplate

set_option autoImplicit false

namespace Draft

open Compiler
open Relation (ReflTransGen)

variable {d d' : Draft} {name output : Text} {σ : Type}

/-- The first body of a name is compiled, to this text. -/
def Settled (d : Draft) (name output : Text) : Prop := (d.blocks.slot name).bodies[0]? = some (.compiled output)

/-! ## Asking for a name -/

/-- **A settled name is its text**, and asking for it changes nothing. -/
theorem resolve_of_settled (coherent : d.Coherent) (settled : d.Settled name output) (registry : Registry σ)
    (handlers : σ) : (d.compiler registry).resolve name (d.start handlers) = (output, d.start handlers) := by
  have next : ((d.start handlers).blocks.slot name).bodies[((d.start handlers).blocks.slot name).cursor]?
      = some (.compiled output) := by
    show (d.blocks.slot name).bodies[(d.blocks.slot name).cursor]? = _
    rw [coherent.cursor name]
    exact settled
  rw [resolve_eq]
  exact resolveWith_of_compiled next

def resolved (d : Draft) (registry : Registry σ) (handlers : σ) (name : Text) : Draft :=
  { d with blocks := ((d.compiler registry).resolve name (d.start handlers)).2.blocks }

/-- **A name with a body is settled once it was asked for.** -/
theorem settled_resolved (coherent : d.Coherent) (defined : 0 < d.blocks.depth name) (registry : Registry σ)
    (handlers : σ) :
    (d.resolved registry handlers name).Settled name ((d.compiler registry).resolve name (d.start handlers)).1 := by
  have cursor : ((d.start handlers).blocks.slot name).cursor = 0 := coherent.cursor name
  unfold Settled resolved
  rw [resolve_eq]
  cases next : ((d.start handlers).blocks.slot name).bodies[0]? with
  | none => exact absurd (List.getElem?_eq_none_iff.1 next) (Nat.not_le_of_lt defined)
  | some body =>
    cases body with
    | compiled output =>
      rw [resolveWith_of_compiled (cursor ▸ next)]
      exact next
    | pending ids =>
      rw [resolveWith_of_pending cursor next]
      -- While the nodes are compiled the place of the body stays there.
      have inside := advancing_concat .text (d.compiler registry) ((d.compiler registry).depth d.blocks) [name] ids
        (entered (d.start handlers) name ((d.start handlers).blocks.slot name).cursor)
      have there := inside.length_inside
      rw [cursor] at there
      dsimp only
      rw [BlockStack.slot_leave]
      exact List.getElem?_set_self (Nat.lt_of_lt_of_eq defined there.symm)

/-! ## What is done later -/

theorem Settled.edit (settled : d.Settled name output) (edits : d.Edits d') : d'.Settled name output := by
  cases edits with
  | addRoot => exact settled
  | append there kind offset => exact settled
  | setState there state => exact settled
  | takeChildren there => exact settled
  | pushBody other there =>
    unfold Settled BlockStack.push
    by_cases same : name = other
    · subst same
      rw [BlockStack.slot_modify_same]
      exact List.getElem?_append_left (List.getElem?_eq_some_iff.1 settled).1 ▸ settled
    · rw [BlockStack.slot_modify_ne _ _ same]
      exact settled

theorem Settled.edited (settled : d.Settled name output) (edited : ReflTransGen Edits d d') :
    d'.Settled name output := by
  induction edited with
  | refl => exact settled
  | tail _ edits ih => exact ih.edit edits

theorem Settled.change (coherent : d.Coherent) (settled : d.Settled name output) (changes : d.Changes d') :
    d'.Settled name output := by
  rcases advances_of_changes coherent changes with edited | ⟨-, advances⟩
  · exact settled.edited edited
  · exact advances.compiled name 0 output (Nat.le_of_eq (coherent.cursor name)) settled

/-- **A name stays settled**, whatever is done. -/
theorem Settled.changed (coherent : d.Coherent) (settled : d.Settled name output) (changed : ReflTransGen Changes d d') :
    d'.Settled name output := by
  induction changed with
  | refl => exact settled
  | tail before changes ih => exact ih.change (coherent.changed before) changes

/-- **A resolved name stays resolved.**  When a name with a body was asked for once, then after any changes a new
compiler with any handlers gives the same text for it, in the state that it was asked in. -/
theorem resolve_again {d d' : Draft} {name : Text} (reached : d.Reached) (defined : 0 < d.blocks.depth name)
    {σ σ' : Type} (registry : Registry σ) (handlers : σ)
    (later : ReflTransGen Changes (d.resolved registry handlers name) d') (registry' : Registry σ') (handlers' : σ') :
    (d'.compiler registry').resolve name (d'.start handlers')
      = (((d.compiler registry).resolve name (d.start handlers)).1, d'.start handlers') := by
  have coherent := reached.coherent
  have coherent_resolved : (d.resolved registry handlers name).Coherent :=
    coherent.change (.resolve d registry handlers name)
  have settled := (settled_resolved coherent defined registry handlers).changed coherent_resolved later
  exact resolve_of_settled (coherent_resolved.changed later) settled registry' handlers'

/-- The name that contains itself is resolved, gets a third body and is asked for again, with other handlers. -/
theorem resolve_again_selfContaining :
    let d := selfContaining.resolved libraryEngine.registry () ['a']
    let d' : Draft := { d with blocks := d.blocks.push ['a'] [2] }
    selfContaining.Reached ∧ 0 < selfContaining.blocks.depth ['a'] ∧
      ReflTransGen Changes (selfContaining.resolved libraryEngine.registry () ['a']) d' ∧
      (d'.compiler ({} : Registry Nat)).resolve ['a'] (d'.start 7)
        = (((selfContaining.compiler libraryEngine.registry).resolve ['a'] (selfContaining.start ())).1, d'.start 7) := by
  intro d d'
  have pushed : ReflTransGen Changes d d' := .single (.edit (.pushBody d ['a'] (by decide : ∀ id ∈ [2], id < 3)))
  exact ⟨reached_selfContaining, by decide, pushed,
    resolve_again reached_selfContaining (by decide) libraryEngine.registry () pushed {} 7⟩

end Draft

end TagTemplate
