/-
# Proofs.Device -- what stays on a device that fails

A text that a device does not take, or does not give up again, leaves something
behind: an initial part of its bytes, or the whole of it (`Remnant`).  A sound device
leaves nothing (`not_remnant_sound`), and does what the file system does.

Permission bits that are not changed are changed to what they are
(`exists_setModeOn`), so that what holds whatever they become holds then as well.
-/
import TagTemplate.Device
import TagTemplate.Proofs.FileSystem

namespace TagTemplate

set_option autoImplicit false

open Text

namespace Device

/-- What can stay of a text after an error: the bytes the device has room for, if they are not all, or the whole text,
if the device does not remove it again. -/
inductive Remnant (d : Device) (t : Text) : Contents → Prop where
  | cut {room : Nat} {cause : FileError} (limit : d.room = some (room, cause)) (short : room < size t) :
      Remnant d t (.ofBytes (t.bytes.take room))
  | unremoved (stays : d.removes = false) : Remnant d t (.text t)

variable {d : Device} {t : Text}

/-- What is written is the whole text, or what can stay of it. -/
theorem take_cases (d : Device) (t : Text) :
    d.take t = (.text t, .ok ()) ∨ ∃ kept cause, d.take t = (kept, .error cause) ∧ d.Remnant t kept := by
  unfold take
  split
  · exact .inl rfl
  · rename_i room cause limit
    by_cases short : room < size t
    · rw [if_pos short]
      exact .inr ⟨_, cause, rfl, .cut limit short⟩
    · rw [if_neg short]
      exact .inl rfl

/-- **A sound device leaves nothing behind.** -/
theorem not_remnant_sound (kept : Contents) : ¬ Remnant {} t kept := nofun

end Device

namespace FileSystem

variable {fs : FileSystem}

theorem writeOn_sound {written : FileSystem} {l : Location} {t : Text} (ok : fs.writeAt l (.text t) = .ok written) :
    fs.writeOn {} l t = (written, .ok ()) := by
  simp [writeOn, Device.take, ok]

theorem setEntry_of_find? {l : Location} {e : Location × Entry} :
    ∀ {entries : List (Location × Entry)}, entries.find? (fun x => x.1 == l) = some e → setEntry l e.2 entries = entries := by
  intro entries
  induction entries with
  | nil => nofun
  | cons x entries ih =>
    intro found
    unfold setEntry
    by_cases same : x.1 = l
    · rw [if_pos same]
      obtain rfl : x = e := by simpa [List.find?_cons, same] using found
      rw [← same]
    · rw [if_neg same, ih (by simpa [List.find?_cons, same] using found)]

/-- An entry that is put where it is already changes nothing. -/
theorem set_of_get? {l : Location} {e : Entry} (found : fs.get? l = some e) : fs.set l e = fs := by
  obtain ⟨x, first, rfl⟩ := Option.map_eq_some_iff.1 found
  rw [set, setEntry_of_find? first]

theorem exists_setMode_eq (fs : FileSystem) (l : Location) : ∃ mode, fs.setMode l mode = fs := by
  cases found : fs.get? l with
  | none => exact ⟨0, by rw [setMode, found]⟩
  | some e =>
    refine ⟨e.mode, ?_⟩
    have same : e.withMode e.mode = e := by cases e <;> rfl
    rw [setMode, found]
    dsimp only
    rw [same, set_of_get? found]

/-- Permission bits are changed to those that are asked for, or to what they are. -/
theorem exists_setModeOn (fs : FileSystem) (d : Device) (l : Location) (mode : Nat) :
    ∃ mode', fs.setModeOn d l mode = fs.setMode l mode' ∧ (d.permits = true → mode = mode') := by
  cases permits : d.permits with
  | true => exact ⟨mode, by rw [setModeOn, if_pos permits], fun _ => rfl⟩
  | false =>
    obtain ⟨mode', same⟩ := fs.exists_setMode_eq l
    refine ⟨mode', ?_, nofun⟩
    rw [setModeOn, permits, same]
    rfl

theorem move_of_moveOn {d : Device} {source target : Location} {moved : FileSystem}
    (ok : fs.moveOn d source target = .ok moved) : fs.move source target = .ok moved := by
  unfold moveOn at ok
  split at ok
  · cases ok
  · exact ok

end FileSystem

end TagTemplate
