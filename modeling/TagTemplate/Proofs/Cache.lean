/-
# Proofs.Cache -- storing an artifact changes that artifact only

A store gets as far as one of five points (`Outcome`), whatever the device refuses.  So
it either succeeds and the artifact of the source holds the contents, written at the
present time, or it fails and the artifact is as it was (`Stores`).  Either way no
other file changes, apart from the temporary one beside it (`stores_store`).

Two artifacts are never below each other's temporary files, and neither is any
location apart from the folder of the cache (`temporary_not_prefix_artifact`,
`Apart.temporary_not_prefix`).
-/
import TagTemplate.Cache
import TagTemplate.Proofs.Device

namespace TagTemplate

set_option autoImplicit false

namespace Cache

variable (c : Cache)

/-- A location outside of the folder of the cache, and not the root of the file system. -/
structure Apart (l : Location) : Prop where
  ne_root : l ≠ []
  outside : ¬ c.root ++ [folder] <+: l

/-- A location neither below the folder of the cache nor above it. -/
structure Beside (l : Location) : Prop where
  not_above : ¬ l <+: c.root ++ [folder]
  not_below : ¬ c.root ++ [folder] <+: l

/-- What a store of some contents for a source does to the files. -/
structure Stores (source contents : Text) (before after : FileSystem) (result : Except FileError Location) : Prop where
  /-- Other files stay as they are. -/
  frame : ∀ l, l ≠ [] → ¬ c.temporary before source <+: l → l ≠ c.artifact source → after.file? l = before.file? l
  /-- The artifact holds the contents, or is as it was. -/
  artifact : (result = .ok (c.artifact source) ∧
      ∃ mode, after.file? (c.artifact source) = some (.file (.text contents) mode before.now))
    ∨ ((∃ e, result = .error e) ∧ after.file? (c.artifact source) = before.file? (c.artifact source))

theorem length_shard (source : Text) : (c.shard source).length = c.root.length + 3 := by
  rw [shard, List.length_append]
  rfl

theorem length_artifact (source : Text) : (c.artifact source).length = c.root.length + 4 := by
  rw [artifact, List.length_append, length_shard]
  rfl

theorem length_temporary (fs : FileSystem) (source : Text) :
    (c.temporary fs source).length = c.root.length + 4 := by
  rw [temporary, List.length_append, length_shard]
  rfl

theorem artifact_ne_nil (source : Text) : c.artifact source ≠ [] := by
  intro eq
  have := congrArg List.length eq
  rw [length_artifact] at this
  cases this

/-- The name of a temporary file does not end like that of an artifact. -/
theorem temporary_ne_artifact (fs : FileSystem) (source other : Text) :
    c.temporary fs source ≠ c.artifact other := by
  intro eq
  have names : Sha256.hex source ++ extension ++ ".tmp-".toList ++ Text.decimal fs.now
      = Sha256.hex other ++ extension := by
    have last := congrArg List.getLast? eq
    simpa [temporary, artifact] using last
  have ends : (Text.decimal fs.now).getLast?.or (Sha256.hex source ++ extension ++ ".tmp-".toList).getLast?
      = some 'l' := by
    rw [← List.getLast?_append, names, List.getLast?_append, show extension.getLast? = some 'l' by decide]
    rfl
  cases last : (Text.decimal fs.now).getLast? with
  | none => exact Nat.toDigits_ne_nil (List.getLast?_eq_none_iff.1 last)
  | some d =>
    obtain rfl : d = 'l' := by simpa [last] using ends
    have digit := Nat.isDigit_of_mem_toDigits (by decide) (by decide) (List.mem_of_getLast? last)
    exact absurd digit (by decide)

theorem temporary_not_prefix_artifact (fs : FileSystem) (source other : Text) :
    ¬ c.temporary fs source <+: c.artifact other := by
  intro below
  apply c.temporary_ne_artifact fs source other
  apply below.eq_of_length
  rw [length_temporary, length_artifact]

theorem folder_prefix_shard (source : Text) : c.root ++ [folder] <+: c.shard source := by
  refine ⟨[(Sha256.hex source).take 2, ((Sha256.hex source).drop 2).take 2], ?_⟩
  rw [shard]
  simp only [List.append_assoc]
  rfl

theorem folder_prefix_temporary (fs : FileSystem) (source : Text) : c.root ++ [folder] <+: c.temporary fs source :=
  (c.folder_prefix_shard source).trans (List.prefix_append ..)

theorem folder_prefix_artifact (source : Text) : c.root ++ [folder] <+: c.artifact source :=
  (c.folder_prefix_shard source).trans (List.prefix_append ..)

variable {c}

theorem Apart.temporary_not_prefix {l : Location} (apart : c.Apart l) (fs : FileSystem) (source : Text) :
    ¬ c.temporary fs source <+: l :=
  fun below => apart.outside ((c.folder_prefix_temporary fs source).trans below)

theorem Apart.ne_artifact {l : Location} (apart : c.Apart l) (source : Text) : l ≠ c.artifact source := by
  rintro rfl
  exact apart.outside (c.folder_prefix_artifact source)

theorem Beside.below {l m : Location} (beside : c.Beside l) (below : l <+: m) : c.Beside m where
  not_above above := beside.not_above (below.trans above)
  not_below inside := (List.prefix_or_prefix_of_prefix below inside).elim beside.not_above beside.not_below

theorem Beside.apart {l : Location} (beside : c.Beside l) : c.Apart l where
  ne_root := by
    rintro rfl
    exact beside.not_above List.nil_prefix
  outside := beside.not_below

theorem Beside.shard_not_prefix {l : Location} (beside : c.Beside l) (source : Text) : ¬ c.shard source <+: l :=
  fun below => beside.not_below ((c.folder_prefix_shard source).trans below)

theorem Beside.not_prefix_shard {l : Location} (beside : c.Beside l) (source : Text) : ¬ l <+: c.shard source :=
  fun above =>
    (List.prefix_or_prefix_of_prefix above (c.folder_prefix_shard source)).elim beside.not_above beside.not_below

/-- Artifacts are entries below the folder of the cache. -/
theorem mem_entries_of_artifact {fs : FileSystem} {source : Text} {artifact : Entry}
    (held : fs.file? (c.artifact source) = some artifact) : ∃ l, c.root ++ [folder] <+: l ∧ (l, artifact) ∈ fs.entries :=
  ⟨_, c.folder_prefix_artifact source, FileSystem.mem_entries_of_get? (Option.filter_eq_some_iff.1 held).1⟩

/-! ## Storing -/

theorem shard_ne_nil (c : Cache) (source : Text) : c.shard source ≠ [] := by
  intro eq
  have := congrArg List.length eq
  rw [length_shard] at this
  cases this

/-- How far a store gets, and what it has done by then. -/
inductive Outcome (c : Cache) (source contents : Text) (fs : FileSystem) (d : Device) :
    FileSystem × Except FileError Location → Prop where
  | noDirectory (e : FileError) : Outcome c source contents fs d (fs, .error e)
  | unwritten {made : FileSystem} (makes : fs.makeBelow [] (c.shard source) = .ok made) (e : FileError) :
      Outcome c source contents fs d (made, .error e)
  /-- The temporary file stays, with a part of the contents or all of them. -/
  | left {made written : FileSystem} (makes : fs.makeBelow [] (c.shard source) = .ok made) {kept : Contents}
      (writes : made.writeAt (c.temporary fs source) kept = .ok written) (mode : Nat) (remnant : d.Remnant contents kept)
      (e : FileError) : Outcome c source contents fs d (written.setMode (c.temporary fs source) mode, .error e)
  | unmoved {made written : FileSystem} (makes : fs.makeBelow [] (c.shard source) = .ok made)
      (writes : made.writeAt (c.temporary fs source) (.text contents) = .ok written) (mode : Nat) (e : FileError) :
      Outcome c source contents fs d
        ((written.setMode (c.temporary fs source) mode).remove (c.temporary fs source), .error e)
  | stored {made written moved : FileSystem} (makes : fs.makeBelow [] (c.shard source) = .ok made)
      (writes : made.writeAt (c.temporary fs source) (.text contents) = .ok written) (mode : Nat)
      (moves : (written.setMode (c.temporary fs source) mode).move (c.temporary fs source) (c.artifact source)
        = .ok moved)
      (inherited : d.permits = true → artifactMode written (c.shard source) = mode) :
      Outcome c source contents fs d (moved, .ok (c.artifact source))

theorem outcome_store (c : Cache) (fs : FileSystem) (source contents : Text) (d : Device := {}) :
    c.Outcome source contents fs d (c.store fs source contents d) := by
  unfold store
  dsimp only
  cases makes : fs.makeBelow [] (c.shard source) with
  | error e => exact .noDirectory e
  | ok made =>
    dsimp only [FileSystem.writeOn]
    cases d.opening with
    | some cause => exact .unwritten makes cause
    | none =>
      dsimp only
      cases writes : made.writeAt (c.temporary fs source) (d.take contents).1 with
      | error e => exact .unwritten makes e
      | ok written =>
        obtain whole | ⟨kept, cause, cut, remnant⟩ := d.take_cases contents
        · rw [whole] at writes ⊢
          obtain ⟨mode, same, inherited⟩ := written.exists_setModeOn d (c.temporary fs source)
            (artifactMode written (c.shard source))
          dsimp only
          rw [same]
          cases moves : (written.setMode (c.temporary fs source) mode).moveOn d (c.temporary fs source)
              (c.artifact source) with
          | ok moved => exact .stored makes writes mode (FileSystem.move_of_moveOn moves) inherited
          | error e =>
            dsimp only [FileSystem.removeOn]
            cases removes : d.removes with
            | true => exact .unmoved makes writes mode e
            | false => exact .left makes writes mode (.unremoved removes) e
        · rw [cut] at writes ⊢
          obtain ⟨mode, same⟩ := written.exists_setMode_eq (c.temporary fs source)
          have left := Outcome.left makes writes mode remnant cause
          rwa [same] at left

section Steps

variable {fs made written : FileSystem} {source contents : Text}
  (makes : fs.makeBelow [] (c.shard source) = .ok made)
include makes

theorem file?_made {l : Location} (root : l ≠ []) : made.file? l = fs.file? l :=
  FileSystem.file?_makeBelow _ (.inr root) makes

variable {kept : Contents} (writes : made.writeAt (c.temporary fs source) kept = .ok written) (mode : Nat)
include writes

/-- What is written is the temporary file. -/
theorem file?_written {l : Location} (root : l ≠ []) (ne : l ≠ c.temporary fs source) :
    (written.setMode (c.temporary fs source) mode).file? l = fs.file? l := by
  have dir : made.isDirAt (c.temporary fs source).dropLast = true := by
    rw [temporary, List.dropLast_concat]
    exact FileSystem.isDirAt_makeBelow (c.shard source) (.inr (shard_ne_nil c source)) makes
  rw [FileSystem.file?_setMode _ mode ne, FileSystem.file?_writeAt writes dir ne, file?_made makes root]

theorem file?_written_same :
    (written.setMode (c.temporary fs source) mode).file? (c.temporary fs source)
      = some (.file kept mode fs.now) := by
  have root : c.temporary fs source ≠ [] := by
    intro eq
    simpa [length_temporary] using congrArg List.length eq
  obtain ⟨before, held⟩ := FileSystem.file?_writeAt_same writes root
  rw [FileSystem.now_makeBelow _ makes] at held
  exact FileSystem.file?_setMode_same mode held

/-- The directory of the artifact is there to move the temporary file in. -/
theorem isDirAt_written : (written.setMode (c.temporary fs source) mode).isDirAt (c.shard source) = true := by
  have ne : c.shard source ≠ c.temporary fs source := by
    intro eq
    simpa [length_shard, length_temporary] using congrArg List.length eq
  rw [FileSystem.isDirAt_setMode, FileSystem.isDirAt_writeAt writes ne]
  exact FileSystem.isDirAt_makeBelow (c.shard source) (.inr (shard_ne_nil c source)) makes

end Steps

/-- **A store changes the artifact of its source alone**, and that only if it succeeds. -/
theorem stores_store (c : Cache) (fs : FileSystem) (source contents : Text) (d : Device := {}) :
    c.Stores source contents fs (c.store fs source contents d).1 (c.store fs source contents d).2 := by
  have clear : ¬ c.temporary fs source <+: c.artifact source := c.temporary_not_prefix_artifact fs source source
  -- A failed store leaves every file but the temporary one as it was.
  have failed : ∀ (after : FileSystem) (e : FileError),
      (∀ l, l ≠ [] → ¬ c.temporary fs source <+: l → after.file? l = fs.file? l) →
      c.Stores source contents fs after (.error e) := by
    intro after e frame
    exact ⟨fun l root aside _ => frame l root aside, .inr ⟨⟨e, rfl⟩, frame _ (c.artifact_ne_nil source) clear⟩⟩
  -- What is not below the temporary file is not that file.
  have other : ∀ {l}, ¬ c.temporary fs source <+: l → l ≠ c.temporary fs source := fun aside eq =>
    aside (eq ▸ List.prefix_refl _)
  have outcome := c.outcome_store fs source contents d
  generalize c.store fs source contents d = result at outcome ⊢
  cases outcome with
  | noDirectory e => exact failed fs e fun _ _ _ => rfl
  | unwritten makes e => exact failed _ e fun _ root _ => file?_made makes root
  | left makes writes mode _ e => exact failed _ e fun _ root aside => file?_written makes writes mode root (other aside)
  | unmoved makes writes mode e =>
    apply failed
    intro l root aside
    have kept := FileSystem.file?_remove_within (isDirAt_written makes writes mode) aside
    exact kept.trans (file?_written makes writes mode root (other aside))
  | stored makes writes mode moves =>
    have dir := isDirAt_written makes writes mode
    constructor
    · intro l root aside ne
      have kept := FileSystem.file?_move_within dir aside moves ne
      exact kept.trans (file?_written makes writes mode root (other aside))
    · refine .inl ⟨rfl, mode, ?_⟩
      exact FileSystem.file?_move_within_same dir moves (file?_written_same makes writes mode)

/-- What is stored is the artifact of the source. -/
theorem eq_artifact_of_store {c : Cache} {fs : FileSystem} {source contents : Text} {d : Device} {l : Location}
    (ok : (c.store fs source contents d).2 = .ok l) : l = c.artifact source := by
  have outcome := c.outcome_store fs source contents d
  generalize c.store fs source contents d = result at outcome ok
  cases outcome <;> cases ok
  rfl

/-- **A store leaves files and directories beside the cache where they are.** -/
theorem kind?_store {c : Cache} {l : Location} (beside : c.Beside l) (fs : FileSystem) (source contents : Text)
    (d : Device := {}) : (c.store fs source contents d).1.kind? l = fs.kind? l := by
  have aside : ¬ c.temporary fs source <+: l := by
    intro below
    exact beside.shard_not_prefix source ((List.prefix_append ..).trans below)
  have ne : l ≠ c.temporary fs source := by
    rintro rfl
    exact aside (List.prefix_refl _)
  have clear : ¬ l <+: [] ++ c.shard source := beside.not_prefix_shard source
  have outcome := c.outcome_store fs source contents d
  generalize c.store fs source contents d = result at outcome ⊢
  cases outcome with
  | noDirectory _ => rfl
  | unwritten makes _ => exact FileSystem.kind?_makeBelow _ clear makes
  | left makes writes mode _ _ =>
    show FileSystem.kind? (FileSystem.setMode _ _ _) l = fs.kind? l
    rw [FileSystem.kind?_setMode, FileSystem.kind?_writeAt writes ne, FileSystem.kind?_makeBelow _ clear makes]
  | unmoved makes writes mode _ =>
    show FileSystem.kind? (FileSystem.remove _ _) l = fs.kind? l
    rw [FileSystem.kind?_remove _ aside, FileSystem.kind?_setMode, FileSystem.kind?_writeAt writes ne,
      FileSystem.kind?_makeBelow _ clear makes]
  | stored makes writes mode moves =>
    show FileSystem.kind? _ l = fs.kind? l
    rw [FileSystem.kind?_move moves aside (beside.apart.ne_artifact source), FileSystem.kind?_setMode,
      FileSystem.kind?_writeAt writes ne, FileSystem.kind?_makeBelow _ clear makes]

/-! ## Loading -/

/-- What is loaded is the artifact, and the source is no newer. -/
theorem file?_of_loadAt {c : Cache} {fs : FileSystem} {source text : Text} {file : Location}
    (loaded : c.loadAt fs source file = some text) :
    ∃ mode modified, fs.file? (c.artifact source) = some (.file (.text text) mode modified) ∧
      ∀ contents mode' modified', fs.file? file = some (.file contents mode' modified') → modified' ≤ modified := by
  unfold loadAt at loaded
  split at loaded
  · rename_i fresh
    cases reads : fs.readAt (c.artifact source) with
    | error e =>
      rw [reads] at loaded
      cases loaded
    | ok t =>
      rw [reads] at loaded
      cases loaded
      obtain ⟨mode, modified, held⟩ := (fs.readAt_eq_ok_iff _ _).1 reads
      refine ⟨mode, modified, held, fun contents mode' modified' found => ?_⟩
      have artifact := (Option.filter_eq_some_iff.1 held).1
      have entry := (Option.filter_eq_some_iff.1 found).1
      rw [FileSystem.isFreshAt, artifact, entry] at fresh
      exact of_decide_eq_true (Bool.and_eq_true_iff.1 fresh).2
  · cases loaded

end Cache

end TagTemplate
