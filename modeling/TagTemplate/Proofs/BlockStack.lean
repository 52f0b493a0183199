/-
# Proofs.BlockStack -- one slot changes at a time

Changing the slot of a name changes that slot and no other
(`slot_modify_same`, `slot_modify_ne`), also when the name had none.  The number
of bodies still to be compiled follows from that: it falls by one when a body is
started (`pendingCount_enter`) and rises by at most one when it is finished
(`pendingCount_leave_le`), whatever is kept of it.
-/
import TagTemplate.BlockStack

namespace TagTemplate

set_option autoImplicit false

namespace BlockStack

/-! ## Slots -/

theorem find?_modifySlot_same (name : Text) (f : Slot → Slot) (slots : List (Text × Slot)) :
    (modifySlot name f slots).find? (fun p => p.1 == name)
      = some (name, f (((slots.find? fun p => p.1 == name).map (·.2)).getD {})) := by
  induction slots with
  | nil => simp [modifySlot]
  | cons p slots ih =>
    by_cases same : p.1 = name
    · simp [modifySlot, same]
    · simp [modifySlot, same, ih]

theorem find?_modifySlot_ne {name other : Text} (f : Slot → Slot) (slots : List (Text × Slot))
    (ne : other ≠ name) :
    (modifySlot name f slots).find? (fun p => p.1 == other) = slots.find? fun p => p.1 == other := by
  induction slots with
  | nil => simp [modifySlot, Ne.symm ne]
  | cons p slots ih =>
    by_cases same : p.1 = name
    · simp [modifySlot, same, Ne.symm ne]
    · simp only [modifySlot, if_neg same, List.find?_cons, ih]

@[simp] theorem slot_modify_same (s : BlockStack) (name : Text) (f : Slot → Slot) :
    (s.modify name f).slot name = f (s.slot name) := by
  simp only [slot, modify, find?_modifySlot_same, Option.map_some, Option.getD_some]

theorem slot_modify_ne (s : BlockStack) {name other : Text} (f : Slot → Slot) (ne : other ≠ name) :
    (s.modify name f).slot other = s.slot other := by
  simp only [slot, modify, find?_modifySlot_ne f s.slots ne]

section Put

/-! A body is put at one position of one name, and its cursor moves: so is a body begun and finished. -/

variable (s : BlockStack) {name other : Text} {position level : Nat} (move : Nat → Nat) (body : Body)

theorem body_put_same {old : Body} (there : (s.slot name).bodies[position]? = some old) :
    ((s.modify name fun slot => ⟨move slot.cursor, slot.bodies.set position body⟩).slot name).bodies[position]?
      = some body := by
  rw [slot_modify_same]
  exact List.getElem?_set_self (List.getElem?_eq_some_iff.1 there).1

theorem body_put_apart (apart : other = name → level ≠ position) :
    ((s.modify name fun slot => ⟨move slot.cursor, slot.bodies.set position body⟩).slot other).bodies[level]?
      = (s.slot other).bodies[level]? := by
  by_cases same : other = name
  · subst same
    rw [slot_modify_same]
    exact List.getElem?_set_ne (Ne.symm (apart rfl))
  · rw [slot_modify_ne _ _ same]

end Put

/-- A name with bodies has a slot of its own. -/
theorem exists_slot_of_mem_bodies {s : BlockStack} {name : Text} {body : Body}
    (mem : body ∈ (s.slot name).bodies) : ∃ p ∈ s.slots, p.1 = name ∧ p.2 = s.slot name := by
  unfold slot at mem ⊢
  cases found : s.slots.find? fun p => p.1 == name with
  | none => simp [found] at mem
  | some p =>
    refine ⟨p, List.mem_of_find?_eq_some found, ?_, by simp⟩
    simpa using List.find?_some found

/-! ## Bodies still to be compiled -/

def pendingOf (bodies : List Body) : Nat := bodies.countP (·.isPending)

theorem pendingCount_modify (s : BlockStack) (name : Text) (f : Slot → Slot) :
    (s.modify name f).pendingCount + pendingOf (s.slot name).bodies
      = s.pendingCount + pendingOf (f (s.slot name)).bodies := by
  obtain ⟨slots⟩ := s
  simp only [pendingCount, modify, slot, pendingOf]
  induction slots with
  | nil => simp [modifySlot]
  | cons p slots ih =>
    by_cases same : p.1 = name
    · simp [modifySlot, same]
      omega
    · simp [modifySlot, same] at ih ⊢
      omega

theorem pendingOf_set_le (bodies : List Body) (position : Nat) (body : Body) :
    pendingOf (bodies.set position body) ≤ pendingOf bodies + 1 := by
  by_cases inside : position < bodies.length
  · rw [pendingOf, List.countP_set inside, pendingOf]
    split <;> split <;> omega
  · rw [List.set_eq_of_length_le (by omega)]
    omega

theorem pendingOf_set_compiled {bodies : List Body} {position : Nat} {nodes : List NodeId}
    (at_position : bodies[position]? = some (.pending nodes)) (output : Text) :
    pendingOf (bodies.set position (.compiled output)) + 1 = pendingOf bodies := by
  obtain ⟨inside, eq⟩ := List.getElem?_eq_some_iff.1 at_position
  have counted : 0 < pendingOf bodies :=
    List.countP_pos_iff.2 ⟨bodies[position], List.getElem_mem inside, by rw [eq]; rfl⟩
  rw [pendingOf, List.countP_set inside, eq]
  show pendingOf bodies - 1 + 0 + 1 = pendingOf bodies
  omega

theorem pendingCount_enter {s : BlockStack} {name : Text} {position : Nat} {nodes : List NodeId}
    (at_position : (s.slot name).bodies[position]? = some (.pending nodes)) :
    (s.enter name position).pendingCount + 1 = s.pendingCount := by
  have changed := s.pendingCount_modify name fun slot => ⟨slot.cursor + 1, slot.bodies.set position (.compiled [])⟩
  have fewer := pendingOf_set_compiled at_position []
  simp only [enter]
  dsimp only at changed
  omega

theorem pendingCount_leave_le (s : BlockStack) (name : Text) (position : Nat) (body : Body) :
    (s.leave name position body).pendingCount ≤ s.pendingCount + 1 := by
  have changed := s.pendingCount_modify name fun slot => ⟨slot.cursor - 1, slot.bodies.set position body⟩
  have more := pendingOf_set_le (s.slot name).bodies position body
  simp only [leave]
  dsimp only at changed
  omega

end BlockStack

end TagTemplate
