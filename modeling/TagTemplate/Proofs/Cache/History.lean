/-
# Proofs.Cache.History -- a cache is a ledger of its sources

What a cache answers can be told from a ledger that says for each source what was
stored for it last, and when (`Ledger`).  A source is served if it is there, what the
ledger has for it is not empty, and it was changed no later than that (`Ledger.Serves`).

In between anything may happen outside of the folder of the cache (`Elsewhere`): sources
are written, get other modification times, are removed or come back.  Where artifacts
lie is decided by digests, so as long as those of the sources differ, a store changes
one artifact, and this is the one that the ledger has a new line for.  So the cache
agrees with the ledger after any history (`refines_ledger`).

The paths of sources must not lead into the folder of the cache, nor to a directory
above it (`Aside`).  A source that is an artifact itself can be rewritten, and with it
what is loaded for another source (`artifact_as_source`).
-/
import Mathlib.Logic.Relation
import TagTemplate.Proofs.Cache.Ready
import TagTemplate.Proofs.FileSystem.Trail

namespace TagTemplate

set_option autoImplicit false

namespace Cache

open Relation (ReflTransGen)

/-! ## Histories -/

/-- For each source what was stored last, and when. -/
abbrev Ledger := Text → Option (Text × Nat)

def Ledger.blank : Ledger := fun _ => none

def Ledger.note (m : Ledger) (source contents : Text) (time : Nat) : Ledger := fun other =>
  if other = source then some (contents, time) else m other

/-- By the ledger a source is served: it is there, and was changed no later than a text that is not empty was
stored for it. -/
def Ledger.Serves (m : Ledger) (fs : FileSystem) (source text : Text) : Prop :=
  ∃ l entry time, fs.reach source = .ok l ∧ fs.get? l = some entry ∧ m source = some (text, time) ∧
    text ≠ [] ∧ entry.modified ≤ time

/-- What happens outside of the folder of a cache, while its root stays where it is. -/
structure Elsewhere (c : Cache) (before after : FileSystem) : Prop where
  folder : FileSystem.Leaves (c.root ++ [folder] <+: ·) before after
  root : ∀ l, l <+: c.root → after.kind? l = before.kind? l

/-- What happens to the files and the ledger in one step: a store that succeeds, something that is done to a source,
or anything outside of the folder. -/
inductive Deeds (c : Cache) (sources : Text → Prop) : FileSystem × Ledger → FileSystem × Ledger → Prop where
  | store {fs : FileSystem} (m : Ledger) {source contents : Text} (mem : sources source)
      (stored : (c.store fs source contents).2 = .ok (c.artifact source)) :
      Deeds c sources (fs, m) ((c.store fs source contents).1, m.note source contents fs.now)
  | write {fs fs' : FileSystem} (m : Ledger) {source : Text} (mem : sources source) {contents : Contents}
      (written : fs.writeFile source contents = .ok fs') : Deeds c sources (fs, m) (fs', m)
  | setModified {fs : FileSystem} (m : Ledger) {source : Text} (mem : sources source) {l : Location}
      (there : fs.reach source = .ok l) (modified : Nat) : Deeds c sources (fs, m) (fs.setModified l modified, m)
  | remove {fs : FileSystem} (m : Ledger) {source : Text} (mem : sources source) {l : Location}
      (there : fs.reach source = .ok l) : Deeds c sources (fs, m) (fs.remove l, m)
  | elsewhere {fs fs' : FileSystem} (m : Ledger) (elsewhere : c.Elsewhere fs fs') : Deeds c sources (fs, m) (fs', m)

/-- The cache answers what the ledger says, and a store for one source is nothing to the others. -/
structure Agrees (c : Cache) (sources : Text → Prop) (fs : FileSystem) (m : Ledger) : Prop where
  loads : ∀ source, sources source → ∀ text, c.load fs source = some text ↔ m.Serves fs source text
  others : ∀ source other contents, sources source → sources other → other ≠ source →
    c.load (c.store fs other contents).1 source = c.load fs source

/-- From some files on, the cache agrees with the ledger whatever happens. -/
def Refines (c : Cache) (sources : Text → Prop) (start : FileSystem) : Prop :=
  ∀ fs m, ReflTransGen (c.Deeds sources) (start, .blank) (fs, m) → c.Agrees sources fs m

/-- Different sources have different digests. -/
def Distinct (sources : Text → Prop) : Prop :=
  ∀ a b, sources a → sources b → Sha256.hex a = Sha256.hex b → a = b

/-- A path leads past the folder of a cache: neither through it, nor to a directory above it. -/
structure Aside (c : Cache) (fs : FileSystem) (source : Text) : Prop where
  past : ∀ l ∈ fs.trailOf source, ¬ c.root ++ [folder] <+: l
  not_above : ¬ fs.targetOf source <+: c.root ++ [folder]

variable {c : Cache} {sources : Text → Prop} {start fs fs' : FileSystem} {m : Ledger} {source : Text}

/-! ## Loading -/

/-- What is loaded is an artifact that is not empty and at least as new as the source. -/
theorem loadAt_eq_some_iff {file : Location} {text : Text} :
    c.loadAt fs source file = some text ↔ ∃ entry mode time, fs.get? file = some entry ∧
      fs.file? (c.artifact source) = some (.file (.text text) mode time) ∧ text ≠ [] ∧ entry.modified ≤ time := by
  unfold loadAt
  constructor
  · intro loaded
    split at loaded
    · rename_i fresh
      cases reads : fs.readAt (c.artifact source) with
      | error e =>
        rw [reads] at loaded
        cases loaded
      | ok t =>
        rw [reads] at loaded
        cases loaded
        obtain ⟨mode, time, held⟩ := (fs.readAt_eq_ok_iff _ _).1 reads
        rw [FileSystem.isFreshAt, (Option.filter_eq_some_iff.1 held).1] at fresh
        cases there : fs.get? file with
        | none => simp [there] at fresh
        | some entry =>
          rw [there] at fresh
          obtain ⟨full, newer⟩ := Bool.and_eq_true_iff.1 fresh
          refine ⟨entry, mode, time, rfl, held, ?_, of_decide_eq_true newer⟩
          rintro rfl
          cases full
    · cases loaded
  · rintro ⟨entry, mode, time, there, held, full, newer⟩
    have fresh : fs.isFreshAt (c.artifact source) file = true := by
      rw [FileSystem.isFreshAt, (Option.filter_eq_some_iff.1 held).1, there]
      refine Bool.and_eq_true_iff.2 ⟨?_, decide_eq_true newer⟩
      cases text with
      | nil => exact absurd rfl full
      | cons _ _ => rfl
    rw [if_pos fresh, (fs.readAt_eq_ok_iff _ _).2 ⟨mode, time, held⟩]
    rfl

theorem load_eq_some_iff {text : Text} :
    c.load fs source = some text ↔ ∃ l entry mode time, fs.reach source = .ok l ∧ fs.get? l = some entry ∧
      fs.file? (c.artifact source) = some (.file (.text text) mode time) ∧ text ≠ [] ∧ entry.modified ≤ time := by
  unfold load
  cases fs.reach source with
  | error e => simp
  | ok l => simpa using loadAt_eq_some_iff

/-! ## What leaves the cache alone -/

theorem Aside.beside (aside : c.Aside fs source) : c.Beside (fs.targetOf source) where
  not_above := aside.not_above
  not_below := aside.past _ (fs.targetOf_mem_trailOf source)

/-- Whether a path leads past a folder does not depend on what is there. -/
theorem Aside.congr (aside : c.Aside fs source) (workDir : fs'.workDir = fs.workDir) : c.Aside fs' source := by
  have trail : fs'.trailOf source = fs.trailOf source := by
    rw [FileSystem.trailOf, FileSystem.startOf_congr workDir, FileSystem.trailOf]
  have target : fs'.targetOf source = fs.targetOf source := by
    rw [FileSystem.targetOf, FileSystem.startOf_congr workDir, FileSystem.targetOf]
  exact ⟨trail ▸ aside.past, target ▸ aside.not_above⟩

theorem Beside.ne_of_prefix_root {l m : Location} (beside : c.Beside l) (up : m <+: c.root) : m ≠ l := by
  rintro rfl
  exact beside.not_above (up.trans (List.prefix_append ..))

theorem elsewhere_writeFile (aside : c.Aside fs source) {contents : Contents}
    (written : fs.writeFile source contents = .ok fs') : c.Elsewhere fs fs' := by
  unfold FileSystem.writeFile at written
  split at written
  · cases written
  · cases written
  rename_i here name placed
  split at written
  · cases written
  split at written
  · cases written
  obtain ⟨on_trail, target⟩ := FileSystem.target_of_place placed
  have beside := aside.beside
  rw [← target] at beside
  have parent : ¬ c.root ++ [folder] <+: (here ++ [name]).dropLast := by
    rw [List.dropLast_concat]
    exact aside.past here on_trail
  exact ⟨FileSystem.leaves_writeAt written beside.not_below parent,
    fun l up => FileSystem.kind?_writeAt written (beside.ne_of_prefix_root up)⟩

theorem elsewhere_setModified {l : Location} (beside : c.Beside l) (modified : Nat) :
    c.Elsewhere fs (fs.setModified l modified) :=
  ⟨FileSystem.leaves_setModified fs beside.not_below modified, fun m _ => FileSystem.kind?_setModified fs l m modified⟩

theorem elsewhere_remove {l : Location} (beside : c.Beside l) : c.Elsewhere fs (fs.remove l) := by
  refine ⟨FileSystem.leaves_remove fs (fun m below => (beside.below below).not_below) fun inside => ?_, fun m up => ?_⟩
  · exact beside.not_below (inside.trans (List.dropLast_prefix l))
  · exact FileSystem.kind?_remove fs fun below => beside.not_above ((below.trans up).trans (List.prefix_append ..))

theorem Ready.elsewhere (ready : c.Ready fs) (elsewhere : c.Elsewhere fs fs') : c.Ready fs' where
  root l up := (elsewhere.root l up).trans (ready.root l up)
  shards l below short := by
    rw [elsewhere.folder.kind? below]
    exact ready.shards l below short
  artifacts l below length := by
    rw [elsewhere.folder.kind? below]
    exact ready.artifacts l below length

/-! ## What a store leaves alone -/

/-- **A store leaves every entry beside the cache as it is**, with its modification time. -/
theorem leaves_store (c : Cache) (fs : FileSystem) (source contents : Text) (d : Device := {}) :
    FileSystem.Leaves c.Beside fs (c.store fs source contents d).1 := by
  have way : ∀ m, m <+: c.shard source → ¬ c.Beside ([] ++ m) := fun m above beside =>
    beside.not_prefix_shard source above
  have shard : ¬ c.Beside (c.shard source) := fun beside => beside.not_below (c.folder_prefix_shard source)
  have artifact : ¬ c.Beside (c.artifact source) := fun beside => beside.not_below (c.folder_prefix_artifact source)
  have temporary : ∀ m, c.temporary fs source <+: m → ¬ c.Beside m := fun m below beside =>
    beside.not_below ((c.folder_prefix_temporary fs source).trans below)
  have here := temporary _ (List.prefix_refl _)
  have parent : ¬ c.Beside (c.temporary fs source).dropLast := by
    rwa [Cache.temporary, List.dropLast_concat]
  have parent' : ¬ c.Beside (c.artifact source).dropLast := by
    rwa [Cache.artifact, List.dropLast_concat]
  have outcome := c.outcome_store fs source contents d
  generalize c.store fs source contents d = result at outcome ⊢
  cases outcome with
  | noDirectory e => exact .refl _ fs
  | unwritten makes e => exact FileSystem.leaves_makeBelow _ way makes
  | left makes writes mode _ e =>
    have written := (FileSystem.leaves_makeBelow _ way makes).trans (FileSystem.leaves_writeAt writes here parent)
    exact written.trans (FileSystem.leaves_setMode _ here mode)
  | unmoved makes writes mode e =>
    have written := (FileSystem.leaves_makeBelow _ way makes).trans (FileSystem.leaves_writeAt writes here parent)
    exact (written.trans (FileSystem.leaves_setMode _ here mode)).trans (FileSystem.leaves_remove _ temporary parent)
  | stored makes writes mode moves inherited =>
    have written := (FileSystem.leaves_makeBelow _ way makes).trans (FileSystem.leaves_writeAt writes here parent)
    exact (written.trans (FileSystem.leaves_setMode _ here mode)).trans
      (FileSystem.leaves_move moves temporary parent artifact parent')

theorem artifact_ne {a b : Text} (differ : Sha256.hex a ≠ Sha256.hex b) : c.artifact a ≠ c.artifact b := by
  intro eq
  have last := congrArg List.getLast? eq
  simp only [artifact, List.getLast?_append, List.getLast?_singleton, Option.some_or, Option.some.injEq] at last
  exact differ (List.append_cancel_right last)

/-- A store for one source leaves the artifact of another one as it is. -/
theorem file?_store_ne {other contents : Text} (differ : Sha256.hex source ≠ Sha256.hex other) :
    (c.store fs other contents).1.file? (c.artifact source) = fs.file? (c.artifact source) :=
  (c.stores_store fs other contents).frame _ (c.artifact_ne_nil source)
    (c.temporary_not_prefix_artifact fs other source) (artifact_ne differ)

/-- **A store for one source is nothing to another one.** -/
theorem load_store_ne (ready : c.Ready fs) (aside : c.Aside fs source) {other : Text}
    (differ : Sha256.hex source ≠ Sha256.hex other) (contents : Text) :
    c.load (c.store fs other contents).1 source = c.load fs source := by
  have leaves := c.leaves_store fs other contents
  obtain ⟨-, -, kept⟩ := store_of_ready ready other contents
  have reach := FileSystem.reach_congr leaves.workDir fun l mem => kept.kind l (aside.past l mem)
  have entry : ∀ l, fs.reach source = .ok l → (c.store fs other contents).1.get? l = fs.get? l := fun l there =>
    leaves.entry l (FileSystem.eq_targetOf_of_reach there ▸ aside.beside)
  refine Option.ext fun text => ?_
  rw [load_eq_some_iff, load_eq_some_iff, reach, file?_store_ne differ]
  refine exists_congr fun l => exists_congr fun e => exists_congr fun mode => exists_congr fun time => ?_
  exact and_congr_right fun there => by rw [entry l there]

/-! ## After any history -/

def Holds (c : Cache) (fs : FileSystem) (source : Text) : Option (Text × Nat) → Prop
  | none => fs.file? (c.artifact source) = none
  | some (contents, time) => ∃ mode, fs.file? (c.artifact source) = some (.file (.text contents) mode time)

/-- The cache can take every artifact, and holds those that the ledger has a line for. -/
structure Accurate (c : Cache) (sources : Text → Prop) (start fs : FileSystem) (m : Ledger) : Prop where
  ready : c.Ready fs
  workDir : fs.workDir = start.workDir
  holds : ∀ source, sources source → c.Holds fs source (m source)

theorem Holds.congr {line : Option (Text × Nat)} (holds : c.Holds fs source line)
    (same : fs'.file? (c.artifact source) = fs.file? (c.artifact source)) : c.Holds fs' source line := by
  cases line with
  | none => exact same.trans holds
  | some line =>
    obtain ⟨mode, held⟩ := holds
    exact ⟨mode, same.trans held⟩

theorem Accurate.elsewhere (accurate : c.Accurate sources start fs m) (elsewhere : c.Elsewhere fs fs') :
    c.Accurate sources start fs' m where
  ready := accurate.ready.elsewhere elsewhere
  workDir := elsewhere.folder.workDir.trans accurate.workDir
  holds source mem := (accurate.holds source mem).congr (elsewhere.folder.file? (c.folder_prefix_artifact source))

theorem Accurate.store (distinct : Distinct sources) (accurate : c.Accurate sources start fs m)
    (mem : sources source) {contents : Text} (stored : (c.store fs source contents).2 = .ok (c.artifact source)) :
    c.Accurate sources start (c.store fs source contents).1 (m.note source contents fs.now) where
  ready := (store_of_ready accurate.ready source contents).2.1
  workDir := (c.leaves_store fs source contents).workDir.trans accurate.workDir
  holds other other_mem := by
    unfold Ledger.note
    by_cases same : other = source
    · subst same
      rw [if_pos rfl]
      obtain ⟨-, mode, held⟩ := (c.stores_store fs other contents).artifact.resolve_right fun failed => by
        obtain ⟨e, error⟩ := failed.1
        rw [stored] at error
        cases error
      exact ⟨mode, held⟩
    · rw [if_neg same]
      exact (accurate.holds other other_mem).congr
        (file?_store_ne fun collide => same (distinct other source other_mem mem collide))

theorem Accurate.deed (distinct : Distinct sources) (aside : ∀ source, sources source → c.Aside start source)
    (accurate : c.Accurate sources start fs m) {m' : Ledger} (deed : c.Deeds sources (fs, m) (fs', m')) :
    c.Accurate sources start fs' m' := by
  have past : ∀ source, sources source → c.Aside fs source := fun source mem =>
    (aside source mem).congr accurate.workDir
  have beside : ∀ source, sources source → ∀ l, fs.reach source = .ok l → c.Beside l := fun source mem l there =>
    FileSystem.eq_targetOf_of_reach there ▸ (past source mem).beside
  cases deed with
  | store _ mem stored => exact accurate.store distinct mem stored
  | write _ mem written => exact accurate.elsewhere (elsewhere_writeFile (past _ mem) written)
  | setModified _ mem there modified => exact accurate.elsewhere (elsewhere_setModified (beside _ mem _ there) modified)
  | remove _ mem there => exact accurate.elsewhere (elsewhere_remove (beside _ mem _ there))
  | elsewhere _ elsewhere => exact accurate.elsewhere elsewhere

theorem Accurate.serves (accurate : c.Accurate sources start fs m) (mem : sources source) (text : Text) :
    c.load fs source = some text ↔ m.Serves fs source text := by
  have holds := accurate.holds source mem
  rw [load_eq_some_iff, Ledger.Serves]
  generalize m source = line at holds ⊢
  refine exists_congr fun l => exists_congr fun entry => ?_
  cases line with
  | none =>
    have none : fs.file? (c.artifact source) = none := holds
    simp [none]
  | some line =>
    obtain ⟨contents, time⟩ := line
    obtain ⟨mode, held⟩ := holds
    simp [held]

theorem accurate_of_history (empty : c.Empty start) (distinct : Distinct sources)
    (aside : ∀ source, sources source → c.Aside start source) {after : FileSystem × Ledger}
    (history : ReflTransGen (c.Deeds sources) (start, .blank) after) : c.Accurate sources start after.1 after.2 := by
  induction history with
  | refl => exact ⟨empty.ready, rfl, fun source _ => empty.no_artifact source⟩
  | tail _ deed ih => exact ih.deed distinct aside deed

/-- **A cache is a ledger of its sources.**  In an empty folder, for sources with different digests whose paths lead
past that folder: after any history a source is loaded as what was stored for it last, exactly if it is there, that
is not empty, and it was changed no later; and stores for the other sources have no part in it. -/
theorem refines_ledger (empty : c.Empty start) (distinct : Distinct sources)
    (aside : ∀ source, sources source → c.Aside start source) : c.Refines sources start := by
  intro fs m history
  have accurate := accurate_of_history empty distinct aside history
  refine ⟨fun source mem text => accurate.serves mem text, fun source other contents mem other_mem ne => ?_⟩
  exact load_store_ne accurate.ready ((aside source mem).congr accurate.workDir)
    (fun collide => ne (distinct source other mem other_mem collide).symm) contents

/-! ## Two sources -/

/-- Two files, and a directory for a cache. -/
def desk : FileSystem where
  entries := [([], .directory FileSystem.newDirectoryMode 0), ([['c']], .directory FileSystem.newDirectoryMode 0),
    ([['p']], .file (.text ['1']) FileSystem.newFileMode 0), ([['q']], .file (.text ['2']) FileSystem.newFileMode 0)]

def drawer : Cache := ⟨[['c']]⟩

theorem empty_drawer : drawer.Empty desk := empty_of_entries (by decide) (by decide)

/-- The paths of the two files. -/
def pages (source : Text) : Prop := source = "/p".toList ∨ source = "/q".toList

theorem refines_pages : drawer.Empty desk ∧ Distinct pages ∧ (∀ source, pages source → drawer.Aside desk source) ∧
    drawer.Refines pages desk := by
  have distinct : Distinct pages := by
    rintro a b (rfl | rfl) (rfl | rfl) <;> decide +kernel
  have aside : ∀ source, pages source → drawer.Aside desk source := by
    rintro source (rfl | rfl) <;> exact ⟨by decide +kernel, by decide +kernel⟩
  exact ⟨empty_drawer, distinct, aside, refines_ledger empty_drawer distinct aside⟩

/-- The path of a file and that of its artifact. -/
def pageAndArtifact (source : Text) : Prop :=
  source = "/p".toList ∨ source = Location.written (drawer.artifact "/p".toList)

/-- **An artifact that is a source itself**: when it is rewritten, the source that it was stored for is loaded as
another text than was stored. -/
theorem artifact_as_source : drawer.Empty desk ∧ Distinct pageAndArtifact ∧ ¬ drawer.Refines pageAndArtifact desk := by
  have distinct : Distinct pageAndArtifact := by
    rintro a b (rfl | rfl) (rfl | rfl) <;> decide +kernel
  refine ⟨empty_drawer, distinct, fun refines => ?_⟩
  have stored : (drawer.store desk "/p".toList ['A']).2 = .ok (drawer.artifact "/p".toList) := by decide +kernel
  have loaded : ((drawer.store desk "/p".toList ['A']).1.writeFile (Location.written (drawer.artifact "/p".toList))
      (.text ['Z'])).map (drawer.load · "/p".toList) = .ok (some ['Z']) := by decide +kernel
  cases written : (drawer.store desk "/p".toList ['A']).1.writeFile (Location.written (drawer.artifact "/p".toList))
      (.text ['Z']) with
  | error e =>
    rw [written] at loaded
    cases loaded
  | ok after =>
    rw [written] at loaded
    let m : Ledger := Ledger.blank.note "/p".toList ['A'] desk.now
    have storing : drawer.Deeds pageAndArtifact (desk, .blank) (_, m) := .store .blank (.inl rfl) stored
    have writing : drawer.Deeds pageAndArtifact (_, m) (after, m) := .write m (.inr rfl) written
    have agrees := refines after _ (.tail (.single storing) writing)
    obtain ⟨_, _, _, -, -, line, -⟩ := (agrees.loads _ (.inl rfl) ['Z']).1 (Except.ok.inj loaded)
    cases line

end Cache

end TagTemplate
