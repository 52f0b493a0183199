/-
# Proofs.Cache.Replacement -- an artifact is replaced at once or not at all

The contents of an artifact are written to a temporary file, which is moved over
the artifact at the end.  A store can fail before there is a temporary file, while it
is written, or after; in the last case the file is removed again.  So a store that fails
leaves every file as it was, and one that succeeds changes the artifact alone
(`replaces_store`).  There are two exceptions, both at the temporary location:

* The name of the temporary file is made to be unique.  A file that has it all the
  same is lost (the second case of `Spares`).
* What has been written of the contents stays when the device takes no more, and all
  of them do when it does not remove the file (`Left`).  Nothing comes back for it.

The artifact gets the read and write permissions of its directory, if the device
changes permissions; that the artifact is moved there does not change them.
-/
import TagTemplate.Proofs.Cache

namespace TagTemplate.Cache

set_option autoImplicit false

variable (c : Cache)

/-- The file at a location stays as it is, unless it has the name of the temporary one; then it can be gone. -/
def Spares (source : Text) (before after : FileSystem) (l : Location) : Prop :=
  after.file? l = before.file? l ∨ (c.temporary before source <+: l ∧ after.file? l = none)

/-- The temporary file of some contents is left at a location, with what the device took of them or did not remove. -/
def Left (source contents : Text) (d : Device) (before after : FileSystem) (l : Location) : Prop :=
  l = c.temporary before source ∧ ∃ kept mode, d.Remnant contents kept ∧ after.file? l = some (.file kept mode before.now)

/-- What a store that fails leaves, and what one that succeeds does. -/
structure Replaces (source contents : Text) (d : Device) (before after : FileSystem)
    (result : Except FileError Location) : Prop where
  failed : ∀ err, result = .error err →
    ∀ l, l ≠ [] → c.Spares source before after l ∨ c.Left source contents d before after l
  others : ∀ artifact, result = .ok artifact →
    artifact = c.artifact source ∧ ∀ l, l ≠ [] → l ≠ artifact → c.Spares source before after l
  held : ∀ artifact, result = .ok artifact → ∃ shardMode modified mode,
    after.get? (c.shard source) = some (.directory shardMode modified) ∧
      after.file? artifact = some (.file (.text contents) mode before.now) ∧
      (d.permits = true → mode = shardMode &&& 0o666)

variable {c} {fs made written moved : FileSystem} {source contents : Text}

/-- A store that fails leaves the artifact alone as well. -/
theorem Stores.frame_of_error {after : FileSystem} {e : FileError}
    (stores : c.Stores source contents fs after (.error e)) {l : Location} (root : l ≠ [])
    (aside : ¬ c.temporary fs source <+: l) : after.file? l = fs.file? l := by
  by_cases same : l = c.artifact source
  · subst same
    exact (stores.artifact.resolve_left nofun).2
  · exact stores.frame l root aside same

/-- A location is spared if it is not below the temporary one, or else has no file afterwards. -/
theorem spares_of_frame {after : FileSystem} {l : Location}
    (frame : ¬ c.temporary fs source <+: l → after.file? l = fs.file? l)
    (gone : c.temporary fs source <+: l → after.file? l = none) : c.Spares source fs after l := by
  by_cases below : c.temporary fs source <+: l
  · exact .inr ⟨below, gone below⟩
  · exact .inl (frame below)

/-- The directory of an artifact keeps its permissions when the artifact is moved there. -/
theorem get?_shard_moved (makes : fs.makeBelow [] (c.shard source) = .ok made)
    (writes : made.writeAt (c.temporary fs source) (.text contents) = .ok written) {mode : Nat}
    (moves : (written.setMode (c.temporary fs source) mode).move (c.temporary fs source) (c.artifact source) = .ok moved) :
    ∃ shardMode modified, moved.get? (c.shard source) = some (.directory shardMode modified) ∧
      artifactMode written (c.shard source) = shardMode &&& 0o666 := by
  have below : ¬ c.temporary fs source <+: c.shard source := by
    intro prefixed
    have := prefixed.length_le
    rw [length_temporary, length_shard] at this
    omega
  have ne : c.shard source ≠ c.temporary fs source := by
    intro eq
    exact below (eq ▸ List.prefix_refl _)
  have ne' : c.shard source ≠ c.artifact source := by
    intro eq
    simpa [length_shard, length_artifact] using congrArg List.length eq
  have dir : moved.isDirAt (c.shard source) = true := by
    rw [FileSystem.isDirAt_congr (FileSystem.kind?_move moves below ne')]
    exact isDirAt_written makes writes mode
  have modes : moved.mode? (c.shard source) = written.mode? (c.shard source) :=
    (FileSystem.mode?_move moves below ne').trans (FileSystem.mode?_setMode written mode ne)
  have inherited : artifactMode written (c.shard source) = (moved.mode? (c.shard source)).getD 0 &&& 0o666 := by
    rw [modes]
    rfl
  unfold FileSystem.isDirAt at dir
  unfold FileSystem.mode? at inherited
  cases found : moved.get? (c.shard source) with
  | none => simp [found] at dir
  | some entry =>
    cases entry with
    | file _ _ _ => simp [found, Entry.isFile] at dir
    | directory shardMode modified => exact ⟨shardMode, modified, rfl, by simp [inherited, found, Entry.mode]⟩

/-- **An artifact is replaced at once or not at all**, whatever the device refuses. -/
theorem replaces_store (c : Cache) (fs : FileSystem) (source contents : Text) (d : Device := {}) :
    c.Replaces source contents d fs (c.store fs source contents d).1 (c.store fs source contents d).2 := by
  have outcome := c.outcome_store fs source contents d
  have stores := c.stores_store fs source contents d
  generalize c.store fs source contents d = result at outcome stores ⊢
  -- A store that fails has no artifact to show.
  have failed : ∀ (after : FileSystem) (e : FileError),
      (∀ l, l ≠ [] → c.Spares source fs after l ∨ c.Left source contents d fs after l) →
      c.Replaces source contents d fs after (.error e) :=
    fun _ _ spares => ⟨fun _ _ => spares, nofun, nofun⟩
  cases outcome with
  | noDirectory e => exact failed _ e fun _ _ => .inl (.inl rfl)
  | unwritten makes e => exact failed _ e fun _ root => .inl (.inl (file?_made makes root))
  | left makes writes mode remnant e =>
    apply failed
    intro l root
    by_cases here : l = c.temporary fs source
    · subst here
      exact .inr ⟨rfl, _, mode, remnant, file?_written_same makes writes mode⟩
    · exact .inl (.inl (file?_written makes writes mode root here))
  | unmoved makes writes mode e =>
    apply failed
    intro l root
    refine .inl (spares_of_frame (stores.frame_of_error root) fun below => ?_)
    exact FileSystem.file?_of_kind? (FileSystem.kind?_remove_below _ below)
  | stored makes writes mode moves inherited =>
    refine ⟨nofun, ?_, ?_⟩
    · rintro _ ⟨⟩
      refine ⟨rfl, fun l root ne => spares_of_frame (fun aside => stores.frame l root aside ne) fun below => ?_⟩
      exact FileSystem.file?_of_kind? (FileSystem.kind?_move_below moves below ne)
    · rintro _ ⟨⟩
      obtain ⟨shardMode, modified, dir, bits⟩ := get?_shard_moved makes writes moves
      refine ⟨shardMode, modified, mode, dir, ?_, fun permits => (inherited permits).symm.trans bits⟩
      exact FileSystem.file?_move_within_same (isDirAt_written makes writes _) moves
        (file?_written_same makes writes _)

end TagTemplate.Cache
