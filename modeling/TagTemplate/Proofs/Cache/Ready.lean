/-
# Proofs.Cache.Ready -- a cache that takes every artifact

A store fails where a file stands in the way of a directory, or a directory in the
place of an artifact.  In an existing directory with nothing in its folder there is
neither (`Empty`), and stores put directories and artifacts at depths of their own, so
it stays like that (`Ready`): every store succeeds (`store_of_ready`).

Outside of its folder a cache leaves everything as it is (`Kept`).
-/
import Mathlib.Data.List.Infix
import TagTemplate.Proofs.Cache

namespace TagTemplate

set_option autoImplicit false

namespace Cache

/-- A cache in an existing directory, with nothing in its folder. -/
structure Empty (c : Cache) (fs : FileSystem) : Prop where
  root : ∀ l, l <+: c.root → fs.kind? l = some false
  nothing : ∀ l, c.root ++ [folder] <+: l → fs.kind? l = none

/-- A cache in an existing directory, with files at the depth of artifacts only and directories above them only. -/
structure Ready (c : Cache) (fs : FileSystem) : Prop where
  root : ∀ l, l <+: c.root → fs.kind? l = some false
  shards : ∀ l, c.root ++ [folder] <+: l → l.length < c.root.length + 4 → fs.kind? l ≠ some true
  artifacts : ∀ l, c.root ++ [folder] <+: l → l.length = c.root.length + 4 → fs.kind? l ≠ some false

/-- Everything outside of the folder of a cache is as it was. -/
structure Kept (c : Cache) (before after : FileSystem) : Prop where
  kind : ∀ l, ¬ c.root ++ [folder] <+: l → after.kind? l = before.kind? l
  file : ∀ l, ¬ c.root ++ [folder] <+: l → after.file? l = before.file? l

variable {c : Cache} {fs : FileSystem}

theorem Empty.ready (empty : c.Empty fs) : c.Ready fs where
  root := empty.root
  shards l below _ := by
    rw [empty.nothing l below]
    nofun
  artifacts l below _ := by
    rw [empty.nothing l below]
    nofun

/-- A cache is empty if its root is a directory, as are those above it, and no entry is in its folder. -/
theorem empty_of_entries (root : ∀ l ∈ c.root.inits, fs.kind? l = some false)
    (none : ∀ entry ∈ fs.entries, ¬ c.root ++ [folder] <+: entry.1) : c.Empty fs where
  root l above := root l ((List.mem_inits ..).2 above)
  nothing l below := by
    rw [FileSystem.kind?, Option.map_eq_none_iff]
    cases found : fs.get? l with
    | none => rfl
    | some e => exact absurd below (none _ (FileSystem.mem_entries_of_get? found))

theorem Empty.no_artifact (empty : c.Empty fs) (source : Text) : fs.file? (c.artifact source) = none := by
  have none := empty.nothing _ (c.folder_prefix_artifact source)
  rw [FileSystem.file?, Option.map_eq_none_iff.1 none]
  rfl

theorem Kept.refl (c : Cache) (fs : FileSystem) : c.Kept fs fs := ⟨fun _ _ => rfl, fun _ _ => rfl⟩

theorem Kept.trans {fs₁ fs₂ fs₃ : FileSystem} (one : c.Kept fs₁ fs₂) (two : c.Kept fs₂ fs₃) : c.Kept fs₁ fs₃ where
  kind l outside := (two.kind l outside).trans (one.kind l outside)
  file l outside := (two.file l outside).trans (one.file l outside)

/-- The directories on the way to an artifact are the root of the cache, those above it, and those in its folder. -/
theorem prefix_shard_cases {l : Location} {source : Text} (above : l <+: c.shard source) :
    l <+: c.root ∨ (c.root ++ [folder] <+: l ∧ l.length < c.root.length + 4) := by
  have short : l.length < c.root.length + 4 := by
    have := above.length_le
    rw [length_shard] at this
    exact Nat.lt_succ_of_le this
  rcases List.prefix_or_prefix_of_prefix above (c.folder_prefix_shard source) with up | down
  · rcases List.prefix_concat_iff.1 up with rfl | up
    · exact .inr ⟨List.prefix_refl _, short⟩
    · exact .inl up
  · exact .inr ⟨down, short⟩

/-- No location of the depth of artifacts is above one. -/
theorem not_prefix_shard {l : Location} (length : l.length = c.root.length + 4) (source : Text) :
    ¬ l <+: c.shard source := by
  intro above
  have := above.length_le
  rw [length_shard, length] at this
  omega

/-- Making the directory of an artifact changes nothing but the way to it. -/
theorem kind?_made {made : FileSystem} {source : Text} (makes : fs.makeBelow [] (c.shard source) = .ok made)
    {l : Location} (aside : ¬ l <+: c.shard source) : made.kind? l = fs.kind? l := by
  have clear : ¬ l <+: [] ++ c.shard source := aside
  exact FileSystem.kind?_makeBelow _ clear makes

/-- What is where after a store: the artifact, no temporary file, and directories on the way. -/
theorem exists_stored (ready : c.Ready fs) (source contents : Text) :
    ∃ made after, fs.makeBelow [] (c.shard source) = .ok made ∧
      c.store fs source contents = (after, .ok (c.artifact source)) ∧
      (∀ l, l ≠ [] → l <+: c.shard source → made.kind? l = some false) ∧
      ∀ l, after.kind? l = if l = c.artifact source then some true
        else if c.temporary fs source <+: l then none else made.kind? l := by
  obtain ⟨made, makes, dirs⟩ : ∃ made, fs.makeBelow [] (c.shard source) = .ok made ∧
      ∀ l, l ≠ [] → l <+: c.shard source → made.kind? ([] ++ l) = some false := by
    refine FileSystem.exists_makeBelow _ fun l _ above => ?_
    rcases prefix_shard_cases above with up | ⟨down, short⟩
    · rw [List.nil_append, ready.root l up]
      nofun
    · exact ready.shards l down short
  have still {l : Location} (below : c.root ++ [folder] <+: l) (length : l.length = c.root.length + 4) :
      made.kind? l ≠ some false := by
    rw [kind?_made makes (not_prefix_shard length source)]
    exact ready.artifacts l below length
  obtain ⟨written, writes, isFile⟩ := FileSystem.exists_writeAt (.text contents)
    (still (c.folder_prefix_temporary fs source) (c.length_temporary fs source))
  have ne := c.temporary_ne_artifact fs source source
  obtain ⟨moved, moves, kinds⟩ : ∃ moved,
      (written.setMode (c.temporary fs source) (artifactMode written (c.shard source))).move (c.temporary fs source)
        (c.artifact source) = .ok moved ∧ ∀ l, moved.kind? l = if l = c.artifact source then some true
          else if c.temporary fs source <+: l then none
          else (written.setMode (c.temporary fs source) (artifactMode written (c.shard source))).kind? l := by
    refine FileSystem.exists_move ?_ ?_
    · rw [FileSystem.kind?_setMode, isFile]
    · rw [FileSystem.kind?_setMode, FileSystem.kind?_writeAt writes ne.symm]
      exact still (c.folder_prefix_artifact source) (c.length_artifact source)
  refine ⟨made, moved, makes, ?_, dirs, fun l => ?_⟩
  · unfold store
    dsimp only
    rw [makes]
    dsimp only
    rw [FileSystem.writeOn_sound writes]
    dsimp only [FileSystem.setModeOn, FileSystem.moveOn]
    rw [if_pos rfl, moves]
  · rw [kinds]
    split
    · rfl
    · split
      · rfl
      · rename_i apart
        rw [FileSystem.kind?_setMode, FileSystem.kind?_writeAt writes fun eq => apart (eq ▸ List.prefix_refl _)]

/-- **A ready cache takes every artifact** and stays ready, and nothing outside of its folder changes. -/
theorem store_of_ready (ready : c.Ready fs) (source contents : Text) :
    (c.store fs source contents).2 = .ok (c.artifact source) ∧ c.Ready (c.store fs source contents).1 ∧
      c.Kept fs (c.store fs source contents).1 := by
  obtain ⟨made, after, makes, stored, dirs, kinds⟩ := exists_stored ready source contents
  have stores := c.stores_store fs source contents
  rw [stored] at stores ⊢
  -- Away from artifact and temporary file, only directories on the way are new.
  have short {l : Location} (length : l.length < c.root.length + 4) : after.kind? l = made.kind? l := by
    rw [kinds, if_neg, if_neg]
    · intro below
      have := below.length_le
      rw [length_temporary] at this
      omega
    · rintro rfl
      rw [length_artifact] at length
      omega
  have old {l : Location} (up : l <+: c.root) : after.kind? l = some false := by
    rw [short (Nat.lt_of_le_of_lt up.length_le (by omega))]
    exact FileSystem.kind?_makeBelow_of_some _ makes (ready.root l up)
  have outside : ∀ l, ¬ c.root ++ [folder] <+: l → after.kind? l = fs.kind? l := by
    intro l apart
    by_cases above : l <+: c.shard source
    · have up := (prefix_shard_cases above).resolve_right fun h => apart h.1
      rw [old up, ready.root l up]
    · rw [kinds, if_neg, if_neg, kind?_made makes above]
      · exact fun below => apart ((c.folder_prefix_temporary fs source).trans below)
      · rintro rfl
        exact apart (c.folder_prefix_artifact source)
  refine ⟨rfl, ⟨fun l up => old up, fun l below length => ?_, fun l below length => ?_⟩, outside, fun l apart => ?_⟩
  · rw [short length]
    by_cases above : l <+: c.shard source
    · rw [dirs l (fun eq => by simp [eq] at below) above]
      nofun
    · rw [kind?_made makes above]
      exact ready.shards l below length
  · rw [kinds]
    split
    · nofun
    · split
      · nofun
      · rw [kind?_made makes (not_prefix_shard length source)]
        exact ready.artifacts l below length
  · by_cases root : l = []
    · subst root
      have dir (files : FileSystem) (is : files.kind? [] = some false) : files.file? [] = none :=
        FileSystem.file?_of_isDirAt (by rw [FileSystem.isDirAt_eq_kind?, is]; rfl)
      rw [dir after (old List.nil_prefix), dir fs (ready.root [] List.nil_prefix)]
    · refine stores.frame l root (fun below => apart ((c.folder_prefix_temporary fs source).trans below)) ?_
      rintro rfl
      exact apart (c.folder_prefix_artifact source)

end Cache

end TagTemplate
