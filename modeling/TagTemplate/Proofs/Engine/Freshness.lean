/-
# Proofs.Engine.Freshness -- what an answer from the cache is worth

An artifact is fresh as long as it is no older than the file of its template.  The
files that the template extends are not looked at, so an answer can be older than
they are (`answer_older_than_base`).  This module says what an answer is all the
same, after any run of requests and rewrites of template files (`Occurrence`).

Every answer of `getCompiled` was compiled by a request of that run, which may be
the present one (`Making`), for a template with the same artifact
(`getCompiled_is_made`).  The file of the template has not been rewritten since.
If the request was for the same file and nothing else that it read has changed
(`Making.Intact`), the answer is what compiling the template gives now.  When the
search path lies beside the cache, only rewrites of the other files of its chain can
have changed that (`Making.intact_of_beside`).

The invariant behind this is `Accounted`: every artifact on disk was made by a
request of the run, and all files that were rewritten later are newer than it.  A
rewrite keeps it because it is later than every artifact (`Admissible`), a request
because it stores one artifact and leaves all others alone.
-/
import Mathlib.Data.List.Induction
import TagTemplate.Proofs.Engine

namespace TagTemplate

set_option autoImplicit false

variable {σ : Type}

/-! ## Requests and rewrites -/

/-- What happens to an engine and its templates. -/
inductive Occurrence where
  /-- The compiled text of a name is asked for at a time. -/
  | getCompiled (name : Text) (now : Nat)
  /-- The artifact of a name is asked for at a time. -/
  | compiledPath (name : Text) (now : Nat)
  /-- A template file gets other contents and a modification time. -/
  | rewrite (file : Location) (contents : Contents) (modified : Nat)
  deriving DecidableEq

def Occurrence.asks : Occurrence → Option (Text × Nat)
  | .getCompiled name now | .compiledPath name now => some (name, now)
  | .rewrite .. => none

/-- Write other contents to a file and set its modification time. -/
def FileSystem.rewrite (fs : FileSystem) (file : Location) (contents : Contents) (modified : Nat) : FileSystem :=
  match fs.writeAt file contents with
  | .ok written => written.setModified file modified
  | .error _ => fs

namespace Engine

def perform (e : Engine σ) (s : Session σ) : Occurrence → Session σ
  | .getCompiled name now => ((e.getCompiled name).run (s.atTime now)).2
  | .compiledPath name now => ((e.compiledPath name).run (s.atTime now)).2
  | .rewrite file contents modified => { s with files := s.files.rewrite file contents modified }

def after (e : Engine σ) (s : Session σ) (run : List Occurrence) : Session σ := run.foldl e.perform s

/-- A rewrite is of an existing file apart from the cache, and later than every artifact. -/
def Admissible (e : Engine σ) (s : Session σ) : Occurrence → Prop
  | .rewrite file _ modified =>
    s.files.isFileAt file = true ∧ e.cache.Apart file ∧
      ∀ source artifact, s.files.file? (e.cache.artifact source) = some artifact → artifact.modified < modified
  | _ => True

/-- Every rewrite of a run is admissible where it happens. -/
def AdmissibleRun (e : Engine σ) (s : Session σ) (run : List Occurrence) : Prop :=
  ∀ before o later, run = before ++ o :: later → e.Admissible (e.after s before) o

/-- A request of a run for a template, and what compiling it gives there. -/
structure Making (e : Engine σ) (s : Session σ) (run : List Occurrence) where
  before : List Occurrence
  request : Occurrence
  /-- What happened since. -/
  later : List Occurrence
  parts : run = before ++ request :: later
  name : Text
  now : Nat
  asks : request.asks = some (name, now)
  template : Template
  found : e.settings.searchPath.find? ((e.after s before).atTime now).files name = some template
  /-- The files of the chain of the template at that time, its own first. -/
  files : List Location
  chain : Chain
  reads : Chain.Reads e.settings ((e.after s before).atTime now).files template files chain
  compilation : Compilation
  compiled : ((e.compile name).run ((e.after s before).atTime now)).1 = .ok compilation

variable {e : Engine σ} {s : Session σ}

def Making.session {run : List Occurrence} (m : e.Making s run) : Session σ := (e.after s m.before).atTime m.now

/-- What a request compiled is still what a template says, except perhaps for the contents of its file. -/
structure Making.Intact {run : List Occurrence} (m : e.Making s run) (present : Session σ) (t : Template) : Prop where
  file : t.file = m.template.file
  /-- The file extends the same template as it did for the request. -/
  origin : ∀ target, Chain.target? e.settings present.files (some t) target
    = Chain.target? e.settings present.files (some m.template) target
  lookups : ∀ origin target, Chain.target? e.settings present.files origin target
    = Chain.target? e.settings m.session.files origin target
  apart : ∀ file ∈ m.files, e.cache.Apart file
  unwritten : ∀ file ∈ m.files, file ≠ t.file → ∀ contents modified, .rewrite file contents modified ∉ m.later

/-- A request of a run accounts for a text that a name is answered with. -/
structure Making.Answers {run : List Occurrence} (m : e.Making s run) (present : Session σ) (name : Text)
    (t : Template) (text : Text) : Prop where
  found : e.settings.searchPath.find? present.files name = some t
  /-- The request was for a template with the same artifact, -/
  artifact : e.cache.artifact m.template.file.written = e.cache.artifact t.file.written
  /-- and this is what it compiled. -/
  text_eq : text = m.compilation.artifact
  unwritten : ∀ contents modified, .rewrite t.file contents modified ∉ m.later
  /-- Compiling the name gives the same now if nothing else changed. -/
  current : e.registry.Pure → m.Intact present t → ((e.compile name).run present).1 = .ok m.compilation

/-! ## Runs -/

theorem after_append (run run' : List Occurrence) : e.after s (run ++ run') = e.after (e.after s run) run' :=
  List.foldl_append

theorem after_concat (run : List Occurrence) (o : Occurrence) :
    e.after s (run ++ [o]) = e.perform (e.after s run) o := by
  rw [after_append]
  rfl

theorem admissibleRun_nil : e.AdmissibleRun s [] := by
  intro before o later eq
  cases before <;> cases eq

theorem AdmissibleRun.concat {run : List Occurrence} {o : Occurrence} (admissible : e.AdmissibleRun s run)
    (last : e.Admissible (e.after s run) o) : e.AdmissibleRun s (run ++ [o]) := by
  intro before o' later eq
  rcases List.eq_nil_or_concat later with rfl | ⟨later, o'', rfl⟩
  · obtain ⟨rfl, same⟩ := List.append_inj' eq rfl
    cases same
    exact last
  · rw [List.concat_eq_append, ← List.cons_append, ← List.append_assoc] at eq
    obtain ⟨rfl, -⟩ := List.append_inj' eq rfl
    exact admissible before o' later rfl

theorem AdmissibleRun.last {run : List Occurrence} {o : Occurrence} (admissible : e.AdmissibleRun s (run ++ [o])) :
    e.Admissible (e.after s run) o :=
  admissible run o [] rfl

theorem AdmissibleRun.before {run run' : List Occurrence} (admissible : e.AdmissibleRun s (run ++ run')) :
    e.AdmissibleRun s run := by
  rintro before o later rfl
  exact admissible before o (later ++ run') (by simp)

theorem AdmissibleRun.later {run run' : List Occurrence} (admissible : e.AdmissibleRun s (run ++ run')) :
    e.AdmissibleRun (e.after s run) run' := by
  rintro before o later rfl
  rw [← after_append]
  exact admissible (run ++ before) o later (by simp)

/-! ## One occurrence -/

/-- A rewrite changes the file that it is of. -/
theorem file?_rewrite {fs : FileSystem} {file : Location} (isFile : fs.isFileAt file = true) (contents : Contents)
    (modified : Nat) (l : Location) :
    ∃ mode, (fs.rewrite file contents modified).file? l =
      if l = file then some (.file contents mode modified) else fs.file? l := by
  obtain ⟨c, mode, time, found⟩ := FileSystem.exists_of_isFileAt isFile
  refine ⟨mode, ?_⟩
  have written : (fs.set file (.file contents mode fs.now)).get? file = some (.file contents mode fs.now) := by
    rw [FileSystem.get?_set, if_pos rfl]
  simp only [FileSystem.rewrite, FileSystem.writeAt, found, FileSystem.setModified, written]
  rw [FileSystem.file?_set]
  split
  · rfl
  · rename_i ne
    exact FileSystem.file?_set_of_ne fs _ ne

/-- Rewriting leaves files and directories where they are. -/
theorem kind?_rewrite {fs : FileSystem} {file : Location} (isFile : fs.isFileAt file = true) (contents : Contents)
    (modified : Nat) (l : Location) : (fs.rewrite file contents modified).kind? l = fs.kind? l := by
  obtain ⟨c, mode, time, found⟩ := FileSystem.exists_of_isFileAt isFile
  simp only [FileSystem.rewrite, FileSystem.writeAt, found]
  rw [FileSystem.kind?_setModified]
  refine FileSystem.kind?_set_of_get? found ?_ l
  rfl

/-- A request does to a session what its effect says. -/
theorem requested_perform {o : Occurrence} {name : Text} {now : Nat} (asks : o.asks = some (name, now)) :
    e.Requested name (s.atTime now) (e.perform s o) := by
  cases o with
  | getCompiled _ _ =>
    cases asks
    exact e.requested_getCompiled name (s.atTime now)
  | compiledPath _ _ =>
    cases asks
    exact e.requested_compiledPath name (s.atTime now)
  | rewrite _ _ _ => cases asks

/-- A request changes no file apart from the cache. -/
theorem file?_perform_of_asks {o : Occurrence} {name : Text} {now : Nat} (asks : o.asks = some (name, now))
    {l : Location} (apart : e.cache.Apart l) : (e.perform s o).files.file? l = s.files.file? l := by
  obtain ⟨effect, -⟩ := requested_perform (e := e) (s := s) asks
  generalize (e.perform s o).files = files at effect ⊢
  cases effect with
  | none => rfl
  | @stored t compilation found compiled =>
    have stores := e.cache.stores_store (s.atTime now).files t.file.written compilation.artifact
    exact stores.frame l apart.ne_root (apart.temporary_not_prefix _ _) (apart.ne_artifact _)

/-- Files and directories beside the cache stay where they are. -/
theorem kind?_perform {o : Occurrence} (admissible : e.Admissible s o) {l : Location} (beside : e.cache.Beside l) :
    (e.perform s o).files.kind? l = s.files.kind? l := by
  cases asks : o.asks with
  | none =>
    cases o with
    | getCompiled _ _ => cases asks
    | compiledPath _ _ => cases asks
    | rewrite file contents modified => exact kind?_rewrite admissible.1 contents modified l
  | some asked =>
    obtain ⟨effect, -⟩ := requested_perform (e := e) (s := s) asks
    generalize (e.perform s o).files = files at effect ⊢
    cases effect with
    | none => rfl
    | stored found compiled => exact Cache.kind?_store beside _ _ _

/-- A file apart from the cache changes in rewrites of it alone. -/
theorem file?_perform {o : Occurrence} (admissible : e.Admissible s o) {l : Location} (apart : e.cache.Apart l)
    (other : ∀ contents modified, o ≠ .rewrite l contents modified) :
    (e.perform s o).files.file? l = s.files.file? l := by
  cases o with
  | getCompiled name now => exact file?_perform_of_asks (o := _) rfl apart
  | compiledPath name now => exact file?_perform_of_asks (o := _) rfl apart
  | rewrite file contents modified =>
    obtain ⟨mode, eq⟩ := file?_rewrite admissible.1 contents modified l
    refine eq.trans (if_neg ?_)
    rintro rfl
    exact other contents modified rfl

/-- Beside the cache files and directories are in the same places after a run. -/
theorem sameBelow_after {run : List Occurrence} (admissible : e.AdmissibleRun s run) {dir : Location}
    (beside : e.cache.Beside dir) : s.files.SameBelow (e.after s run).files dir := by
  intro l below
  induction run using List.reverseRecOn with
  | nil => rfl
  | append_singleton run o ih =>
    rw [after_concat, kind?_perform admissible.last (beside.below below), ih admissible.before]

/-- **A run changes no lookup** on a search path beside the cache. -/
theorem find?_after {run : List Occurrence} (admissible : e.AdmissibleRun s run)
    (beside : ∀ dir ∈ e.settings.searchPath.dirs, e.cache.Beside dir) (now : Nat) (name : Text) :
    e.settings.searchPath.find? ((e.after s run).atTime now).files name = e.settings.searchPath.find? s.files name := by
  apply SearchPath.find?_congr
  intro dir mem
  exact sameBelow_after admissible (beside dir mem)

/-- What is not rewritten in a run is as it was. -/
theorem file?_after {run : List Occurrence} (admissible : e.AdmissibleRun s run) {l : Location}
    (apart : e.cache.Apart l) (other : ∀ contents modified, .rewrite l contents modified ∉ run) :
    (e.after s run).files.file? l = s.files.file? l := by
  induction run using List.reverseRecOn with
  | nil => rfl
  | append_singleton run o ih =>
    rw [after_concat, file?_perform admissible.last apart, ih admissible.before]
    · intro contents modified mem
      exact other contents modified (List.mem_append_left _ mem)
    · rintro contents modified rfl
      exact other contents modified (List.mem_append_right _ (List.mem_singleton_self _))

/-- What is rewritten in a run is as some rewrite left it. -/
theorem exists_rewrite_of_mem {run : List Occurrence} (admissible : e.AdmissibleRun s run) {l : Location}
    {contents : Contents} {modified : Nat} (mem : .rewrite l contents modified ∈ run) :
    ∃ contents' mode modified', .rewrite l contents' modified' ∈ run ∧
      (e.after s run).files.file? l = some (.file contents' mode modified') := by
  induction run using List.reverseRecOn with
  | nil => cases mem
  | append_singleton run o ih =>
    rw [after_concat]
    by_cases here : ∃ contents' modified', o = .rewrite l contents' modified'
    · obtain ⟨contents', modified', rfl⟩ := here
      obtain ⟨mode, eq⟩ := file?_rewrite admissible.last.1 contents' modified' l
      exact ⟨contents', mode, modified', List.mem_append_right _ (List.mem_singleton_self _), eq.trans (if_pos rfl)⟩
    · have earlier : .rewrite l contents modified ∈ run := by
        rcases List.mem_append.1 mem with mem | mem
        · exact mem
        · exact absurd ⟨contents, modified, (List.mem_singleton.1 mem).symm⟩ here
      obtain ⟨before, later, rfl⟩ := List.append_of_mem earlier
      have apart : e.cache.Apart l :=
        (admissible before (.rewrite l contents modified) (later ++ [o]) (by simp)).2.1
      obtain ⟨contents', mode, modified', mem', eq⟩ := ih admissible.before earlier
      refine ⟨contents', mode, modified', List.mem_append_left _ mem', ?_⟩
      rw [file?_perform admissible.last apart fun c m same => here ⟨c, m, same⟩, eq]

/-- Handlers that leave their state alone are in the same state after a run. -/
theorem handlers_after (pure : e.registry.Pure) (run : List Occurrence) : (e.after s run).handlers = s.handlers := by
  induction run using List.reverseRecOn with
  | nil => rfl
  | append_singleton run o ih =>
    rw [after_concat, ← ih]
    cases o with
    | getCompiled name now => exact (e.requested_getCompiled name ((e.after s run).atTime now)).2 pure
    | compiledPath name now => exact (e.requested_compiledPath name ((e.after s run).atTime now)).2 pure
    | rewrite _ _ _ => rfl

/-! ## Where artifacts come from -/

/-- A request of the beginning of a run is one of the whole run. -/
def Making.extend {run : List Occurrence} (m : e.Making s run) (more : List Occurrence) : e.Making s (run ++ more) :=
  { m with
    later := m.later ++ more
    parts := (congrArg (· ++ more) m.parts).trans (List.append_assoc ..) }

theorem Making.mem_run {run : List Occurrence} (m : e.Making s run) {o : Occurrence}
    (mem : o ∈ m.request :: m.later) : o ∈ run := by
  rw [m.parts]
  exact List.mem_append_right _ mem

/-- What has not been rewritten since a request is as it was then. -/
theorem Making.file?_later {run : List Occurrence} (m : e.Making s run) (admissible : e.AdmissibleRun s run)
    {l : Location} (apart : e.cache.Apart l) (other : ∀ contents modified, .rewrite l contents modified ∉ m.later) :
    (e.after s run).files.file? l = m.session.files.file? l := by
  have parts : e.after s run = e.after (e.after s m.before) (m.request :: m.later) := by
    rw [← after_append, ← m.parts]
  have since : e.AdmissibleRun (e.after s m.before) (m.request :: m.later) :=
    AdmissibleRun.later (by rw [← m.parts]; exact admissible)
  rw [parts, file?_after since apart]
  · rfl
  · intro contents modified mem
    rcases List.mem_cons.1 mem with eq | mem
    · have asks := m.asks
      rw [← eq] at asks
      cases asks
    · exact other contents modified mem

/-- A request that compiles a template is the last one of the run that it ends. -/
theorem exists_making_of_compilationOf {run : List Occurrence} {o : Occurrence} {name : Text} {now : Nat}
    (asks : o.asks = some (name, now)) {t : Template}
    (found : e.settings.searchPath.find? ((e.after s run).atTime now).files name = some t)
    {compilation : Compilation}
    (compiled : e.compilationOf ((e.after s run).atTime now).files (e.after s run).handlers t = .ok compilation) :
    ∃ m : e.Making s (run ++ [o]), m.later = [] ∧ m.template = t ∧ m.compilation = compilation := by
  obtain ⟨files, chain, reads, -⟩ := e.compilationOf_eq_ok_iff.1 compiled
  have run_compile : ((e.compile name).run ((e.after s run).atTime now)).1 = .ok compilation := by
    rw [e.run_compile, found]
    exact compiled
  exact ⟨⟨run, o, [], rfl, name, now, asks, t, found, files, chain, reads, compilation, run_compile⟩, rfl, rfl, rfl⟩

/-- What a request leaves of artifacts: it makes the one of its template, or none. -/
theorem artifact_of_requested {o : Occurrence} {name : Text} {now : Nat} (asks : o.asks = some (name, now))
    (source : Text) :
    (e.perform s o).files.file? (e.cache.artifact source) = s.files.file? (e.cache.artifact source) ∨
      ∃ t compilation mode, e.settings.searchPath.find? (s.atTime now).files name = some t ∧
        e.compilationOf (s.atTime now).files s.handlers t = .ok compilation ∧
        e.cache.artifact t.file.written = e.cache.artifact source ∧
        (e.perform s o).files.file? (e.cache.artifact source)
          = some (.file (.text compilation.artifact) mode now) := by
  obtain ⟨effect, -⟩ := requested_perform (e := e) (s := s) asks
  generalize (e.perform s o).files = files at effect ⊢
  cases effect with
  | none => exact .inl rfl
  | @stored t compilation found compiled =>
    have stores := e.cache.stores_store (s.atTime now).files t.file.written compilation.artifact
    by_cases same : e.cache.artifact t.file.written = e.cache.artifact source
    · rcases stores.artifact with ⟨-, mode, held⟩ | ⟨-, kept⟩
      · exact .inr ⟨t, compilation, mode, found, compiled, same, same ▸ held⟩
      · exact .inl (same ▸ kept)
    · exact .inl (stores.frame _ (e.cache.artifact_ne_nil source)
        (e.cache.temporary_not_prefix_artifact _ _ _) (Ne.symm same))

/-- An artifact was made by a request of the run, and what was rewritten since is newer. -/
def Accounted (e : Engine σ) (s : Session σ) (run : List Occurrence) (source : Text) (contents : Contents)
    (modified : Nat) : Prop :=
  ∃ m : e.Making s run, e.cache.artifact m.template.file.written = e.cache.artifact source ∧
    contents = .text m.compilation.artifact ∧
    ∀ file contents' modified', .rewrite file contents' modified' ∈ m.later → modified < modified'

/-- An artifact that is left alone is still accounted for, unless it is newer than a rewrite. -/
theorem Accounted.extend {run : List Occurrence} {source : Text} {contents : Contents} {modified : Nat}
    (accounted : e.Accounted s run source contents modified) {o : Occurrence}
    (newer : ∀ file contents' modified', o = .rewrite file contents' modified' → modified < modified') :
    e.Accounted s (run ++ [o]) source contents modified := by
  obtain ⟨m, place, text, since⟩ := accounted
  refine ⟨m.extend [o], place, text, ?_⟩
  intro file contents' modified' mem
  rcases List.mem_append.1 mem with mem | mem
  · exact since file contents' modified' mem
  · exact newer file contents' modified' (List.mem_singleton.1 mem).symm

/-- A request accounts for the artifact that it makes, and leaves the others as they were. -/
theorem accounted_of_asks {run : List Occurrence} {o : Occurrence} {name : Text} {now : Nat}
    (asks : o.asks = some (name, now)) {source : Text} {contents : Contents} {mode modified : Nat}
    (held : (e.perform (e.after s run) o).files.file? (e.cache.artifact source)
      = some (.file contents mode modified))
    (earlier : (e.after s run).files.file? (e.cache.artifact source) = some (.file contents mode modified) →
      e.Accounted s run source contents modified) :
    e.Accounted s (run ++ [o]) source contents modified := by
  rcases artifact_of_requested (s := e.after s run) asks source with same | made
  · apply (earlier (same.symm.trans held)).extend
    rintro file contents' modified' rfl
    cases asks
  · obtain ⟨t, compilation, mode', found, compiled, place, held'⟩ := made
    obtain ⟨m, later, template, text⟩ := exists_making_of_compilationOf asks found compiled
    rw [held'] at held
    cases held
    refine ⟨m, template ▸ place, by rw [text], ?_⟩
    intro file contents' modified' mem
    rw [later] at mem
    cases mem

/-- **Every artifact was made by a request of the run**, and what was rewritten since is newer. -/
theorem accounted_of_held (empty : ∀ source, s.files.file? (e.cache.artifact source) = none) (run : List Occurrence)
    (admissible : e.AdmissibleRun s run) {source : Text} {contents : Contents} {mode modified : Nat}
    (held : (e.after s run).files.file? (e.cache.artifact source) = some (.file contents mode modified)) :
    e.Accounted s run source contents modified := by
  induction run using List.reverseRecOn generalizing contents mode modified with
  | nil =>
    have none := (empty source).symm.trans held
    cases none
  | append_singleton run o ih =>
    rw [after_concat] at held
    have ih := @ih admissible.before contents mode modified
    cases o with
    | getCompiled name now => exact accounted_of_asks rfl held ih
    | compiledPath name now => exact accounted_of_asks rfl held ih
    | rewrite file contents' modified' =>
      obtain ⟨isFile, apart, later⟩ := admissible.last
      obtain ⟨mode', eq⟩ := file?_rewrite isFile contents' modified' (e.cache.artifact source)
      have same := eq.trans (if_neg (Ne.symm (apart.ne_artifact source)))
      have before := same.symm.trans held
      apply (ih before).extend
      rintro _ _ _ ⟨⟩
      exact later source _ before

/-- A file that is no newer than what was made before its rewrites was not rewritten. -/
theorem Making.unwritten_of_fresh {run : List Occurrence} (m : e.Making s run) (admissible : e.AdmissibleRun s run)
    {file : Location} {modified : Nat}
    (since : ∀ file contents modified', .rewrite file contents modified' ∈ m.later → modified < modified')
    (fresh : ∀ contents mode modified',
      (e.after s run).files.file? file = some (.file contents mode modified') → modified' ≤ modified) :
    ∀ contents modified', .rewrite file contents modified' ∉ m.later := by
  intro contents modified' mem
  have parts : run = (m.before ++ [m.request]) ++ m.later := by
    rw [List.append_assoc, List.singleton_append, ← m.parts]
  have suffix : e.AdmissibleRun (e.after s (m.before ++ [m.request])) m.later := by
    apply AdmissibleRun.later
    rw [← parts]
    exact admissible
  obtain ⟨contents', mode, last, mem', left⟩ := exists_rewrite_of_mem suffix mem
  rw [← after_append, ← parts] at left
  have older := fresh contents' mode last left
  have newer := since file contents' last mem'
  omega

/-! ## Answers -/

/-- What compiling gave holds as long as the chain leads to the same files with the same contents. -/
theorem Making.compile_eq {run : List Occurrence} (m : e.Making s run) {present : Session σ} {t : Template}
    (intact : m.Intact present t) (handlers : present.handlers = m.session.handlers)
    (texts : ∀ file ∈ m.files, present.files.file? file = m.session.files.file? file) {name : Text}
    (found : e.settings.searchPath.find? present.files name = some t) :
    ((e.compile name).run present).1 = .ok m.compilation := by
  have transferred : Chain.Reads e.settings present.files m.template m.files m.chain := by
    apply m.reads.transfer intact.lookups
    intro file mem text read
    rw [FileSystem.readAt_eq_ok_iff, texts file mem]
    exact (FileSystem.readAt_eq_ok_iff ..).1 read
  have reads := transferred.of_origin intact.file intact.origin
  have before : e.compilationOf m.session.files m.session.handlers m.template = .ok m.compilation := by
    have compiled := m.compiled
    rw [e.run_compile, m.found] at compiled
    exact compiled
  have same : e.compilationOf m.session.files m.session.handlers m.template
      = .ok ⟨m.chain.outputWith .text e.registry m.session.handlers, m.chain.diagnostics⟩ :=
    e.compilationOf_eq_ok_iff.2 ⟨m.files, m.chain, m.reads, rfl⟩
  rw [e.run_compile, found]
  dsimp only
  rw [e.compilationOf_eq_ok_iff.2 ⟨m.files, m.chain, reads, rfl⟩, handlers]
  exact same.symm.trans before

/-- Beside the cache only rewrites change what a request read. -/
theorem Making.intact_of_beside {run : List Occurrence} {o : Occurrence} (m : e.Making s (run ++ [o]))
    (admissible : e.AdmissibleRun s (run ++ [o]))
    (beside : ∀ dir ∈ e.settings.searchPath.dirs, e.cache.Beside dir) (now : Nat)
    (unwritten : ∀ file ∈ m.files, file ≠ m.template.file →
      ∀ contents modified, .rewrite file contents modified ∉ m.later) :
    m.Intact ((e.after s run).atTime now) m.template where
  file := rfl
  origin _ := rfl
  lookups := by
    have before : e.AdmissibleRun s m.before := AdmissibleRun.before (m.parts ▸ admissible)
    refine Chain.target?_congr fun dir mem l below => ?_
    have now_same := sameBelow_after admissible.before (beside dir mem) l below
    exact now_same.trans (sameBelow_after before (beside dir mem) l below).symm
  apart file mem := by
    have below : ∃ dir ∈ e.settings.searchPath.dirs, dir <+: file := by
      obtain ⟨source, further, eq, -, follows⟩ := m.reads.follows
      rcases List.mem_cons.1 (eq ▸ mem) with rfl | mem
      · obtain ⟨mem, below, -⟩ := SearchPath.of_findIn? m.found
        exact ⟨m.template.dir, mem, below⟩
      · exact Chain.below_of_follows follows file mem
    obtain ⟨dir, mem, below⟩ := below
    exact ((beside dir mem).below below).apart
  unwritten := unwritten

/-- **Every answer was compiled by a request of the run**, the present one included, for a template with
the same artifact whose file has not been rewritten since.  It is what compiling gives now, if that
request read the same files and none of the others has been rewritten either. -/
theorem getCompiled_is_made (e : Engine σ) {s : Session σ}
    (empty : ∀ source, s.files.file? (e.cache.artifact source) = none) (run : List Occurrence)
    (admissible : e.AdmissibleRun s run) {name : Text} {now : Nat} {text : Text}
    (answered : ((e.getCompiled name).run ((e.after s run).atTime now)).1 = .ok text) :
    ∃ (m : e.Making s (run ++ [.getCompiled name now])) (t : Template),
      m.Answers ((e.after s run).atTime now) name t text := by
  obtain ⟨t, found, loaded | ⟨compilation, compiled, eq⟩⟩ := e.getCompiled_eq_ok answered
  · obtain ⟨mode, modified, held, fresh⟩ := Cache.file?_of_loadAt loaded
    obtain ⟨m, place, made, since⟩ := accounted_of_held empty run admissible held
    have own := m.unwritten_of_fresh admissible since fresh
    refine ⟨m.extend [.getCompiled name now], t, found, place, Contents.text.inj made, ?_, ?_⟩
    · intro contents modified' mem
      rcases List.mem_append.1 mem with mem | mem
      · exact own contents modified' mem
      · cases List.mem_singleton.1 mem
    · intro pure intact
      apply (m.extend [.getCompiled name now]).compile_eq intact _ _ found
      · exact (handlers_after pure run).trans (handlers_after pure m.before).symm
      · intro file mem
        apply m.file?_later admissible (intact.apart file mem)
        intro contents modified' mem'
        by_cases eq : file = t.file
        · exact own contents modified' (eq ▸ mem')
        · exact intact.unwritten file mem eq contents modified' (List.mem_append_left _ mem')
  · obtain ⟨m, later, template, text_eq⟩ := exists_making_of_compilationOf (o := .getCompiled name now) rfl found compiled
    refine ⟨m, t, found, by rw [template], by rw [eq, text_eq], ?_, ?_⟩
    · intro contents modified mem
      rw [later] at mem
      cases mem
    · intro _ _
      rw [e.run_compile, found, text_eq]
      exact compiled

/-! ## A page and its base -/

/-- A session with two templates in one directory, of which the first extends the second. -/
def stage : Session Unit where
  files := { FileSystem.empty with
    entries := [([], .directory FileSystem.newDirectoryMode 0),
      ([['t']], .directory FileSystem.newDirectoryMode 0),
      ([['t'], ['p']], .file (.text (extending ['b'] ++ defining ['a'] ['1'])) FileSystem.newFileMode 0),
      ([['t'], ['b']], .file (.text (['('] ++ defining ['a'] [])) FileSystem.newFileMode 0)] }
  handlers := ()

/-- An engine with no handlers that finds the templates there and keeps its cache in another directory. -/
def stageEngine : Engine Unit :=
  { registry := {}, settings := { searchPath := ⟨[[['t']]]⟩ }, cache := ⟨[['c']]⟩ }

theorem pure_stageEngine : stageEngine.registry.Pure := pure_libraryEngine

theorem beside_stageEngine : ∀ dir ∈ stageEngine.settings.searchPath.dirs, stageEngine.cache.Beside dir := by
  intro dir mem
  obtain rfl := List.mem_singleton.1 mem
  exact ⟨by decide +kernel, by decide +kernel⟩

theorem stage_has_no_artifact (source : Text) : stage.files.file? (stageEngine.cache.artifact source) = none := by
  cases held : stage.files.file? (stageEngine.cache.artifact source) with
  | none => rfl
  | some artifact =>
    obtain ⟨l, below, mem⟩ := Cache.mem_entries_of_artifact held
    have none : ∀ entry ∈ stage.files.entries, ¬ stageEngine.cache.root ++ [Cache.folder] <+: entry.1 := by
      decide +kernel
    exact absurd below (none _ mem)

/-- A template is asked for, and a file is rewritten. -/
def rewriting (file : Text) (contents : Text) : List Occurrence :=
  [.getCompiled ['p'] 5, .rewrite [['t'], file] (.text contents) 9]

theorem admissible_rewriting {file contents : Text} (isFile : stage.files.isFileAt [['t'], file] = true) :
    stageEngine.AdmissibleRun stage (rewriting file contents) := by
  have requested : stageEngine.AdmissibleRun stage ([] ++ [.getCompiled ['p'] 5]) :=
    admissibleRun_nil.concat trivial
  have isFile' : (stageEngine.after stage [.getCompiled ['p'] 5]).files.isFileAt [['t'], file] = true := by
    have beside := beside_stageEngine [['t']] (List.mem_singleton_self _)
    have same := sameBelow_after requested beside [['t'], file] ⟨[file], rfl⟩
    rw [FileSystem.isFileAt_eq_kind?] at isFile ⊢
    exact same ▸ isFile
  apply requested.concat
  refine ⟨isFile', ⟨by simp, by simp [stageEngine]⟩, ?_⟩
  intro source artifact held
  obtain ⟨l, below, mem⟩ := Cache.mem_entries_of_artifact held
  have older : ∀ entry ∈ (stageEngine.after stage [.getCompiled ['p'] 5]).files.entries,
      stageEngine.cache.root ++ [Cache.folder] <+: entry.1 → entry.2.modified < 9 := by
    decide +kernel
  exact older _ mem below

def rewrittenPage : List Occurrence := rewriting ['p'] (extending ['b'] ++ defining ['a'] ['2'])

theorem getCompiled_rewrittenPage :
    stageEngine.AdmissibleRun stage rewrittenPage ∧
      ∃ (m : stageEngine.Making stage (rewrittenPage ++ [.getCompiled ['p'] 10])) (t : Template),
        m.Answers ((stageEngine.after stage rewrittenPage).atTime 10) ['p'] t ['(', '2'] ∧
          m.Intact ((stageEngine.after stage rewrittenPage).atTime 10) t := by
  have admissible : stageEngine.AdmissibleRun stage rewrittenPage := admissible_rewriting (by decide +kernel)
  have admissible' : stageEngine.AdmissibleRun stage (rewrittenPage ++ [.getCompiled ['p'] 10]) :=
    admissible.concat trivial
  have answered : ((stageEngine.getCompiled ['p']).run ((stageEngine.after stage rewrittenPage).atTime 10)).1
      = .ok ['(', '2'] := by decide +kernel
  obtain ⟨m, t, answers⟩ :=
    getCompiled_is_made stageEngine stage_has_no_artifact rewrittenPage admissible answered
  have page : stageEngine.settings.searchPath.find? stage.files ['p'] = some ⟨['p'], [['t']], [['t'], ['p']]⟩ := by
    decide +kernel
  have asked : m.name = ['p'] := by
    have mem := m.mem_run (List.mem_cons_self ..)
    have asks := m.asks
    simp only [rewrittenPage, rewriting, List.cons_append, List.nil_append, List.mem_cons, List.not_mem_nil,
      or_false] at mem
    rcases mem with eq | eq | eq
    · rw [eq] at asks
      exact (Prod.mk.inj (Option.some.inj asks)).1.symm
    · rw [eq] at asks
      cases asks
    · rw [eq] at asks
      exact (Prod.mk.inj (Option.some.inj asks)).1.symm
  have template : m.template = ⟨['p'], [['t']], [['t'], ['p']]⟩ := by
    have before : stageEngine.AdmissibleRun stage m.before := AdmissibleRun.before (m.parts ▸ admissible')
    have found := m.found
    rw [asked, find?_after before beside_stageEngine, page] at found
    exact (Option.some.inj found).symm
  have same : t = m.template := by
    have found := answers.found
    rw [find?_after admissible beside_stageEngine, page] at found
    exact (Option.some.inj found).symm.trans template.symm
  subst same
  refine ⟨admissible, m, m.template, answers, m.intact_of_beside admissible' beside_stageEngine 10 ?_⟩
  -- The only file that is rewritten is the page.
  intro file _ other contents modified mem
  rw [template] at other
  have mem := m.mem_run (List.mem_cons_of_mem _ mem)
  simp [rewrittenPage, rewriting, other] at mem

def rewrittenBase : List Occurrence := rewriting ['b'] (['['] ++ defining ['a'] [])

/-- **The answer is older than the base that was rewritten**: compiling the page gives another text. -/
theorem answer_older_than_base :
    (∀ source, stage.files.file? (stageEngine.cache.artifact source) = none) ∧
      stageEngine.registry.Pure ∧
      stageEngine.AdmissibleRun stage rewrittenBase ∧
      (∀ origin target, Chain.target? stageEngine.settings (stageEngine.after stage rewrittenBase).files origin target
        = Chain.target? stageEngine.settings stage.files origin target) ∧
      ((stageEngine.getCompiled ['p']).run ((stageEngine.after stage rewrittenBase).atTime 10)).1 = .ok ['(', '1'] ∧
      ((stageEngine.compile ['p']).run ((stageEngine.after stage rewrittenBase).atTime 10)).1 = .ok ⟨['[', '1'], []⟩ := by
  have admissible : stageEngine.AdmissibleRun stage rewrittenBase := admissible_rewriting (by decide +kernel)
  refine ⟨stage_has_no_artifact, pure_stageEngine, admissible, ?_, by decide +kernel, by decide +kernel⟩
  exact Chain.target?_congr fun dir mem => sameBelow_after admissible (beside_stageEngine dir mem)

end Engine

end TagTemplate
