/-
# Proofs.CommandLine.Building -- the engine that a command works with

Building the engine reads the configuration and makes the directory of the cache.  The
engine has the handlers of the command line (`registry`), and no file is different once it
is built (`files`); so far nothing was printed, and nothing said but the search path.
-/
import TagTemplate.CommandLine.Run
import TagTemplate.Proofs.Chain
import TagTemplate.Proofs.FileSystem.Making

namespace TagTemplate

set_option autoImplicit false

/-- What succeeds has succeeded in both of its steps. -/
theorem exists_of_run_bind {ε S α β : Type} {x : ExceptT ε (StateM S) α} {f : α → ExceptT ε (StateM S) β} {s s' : S}
    {b : β} (ok : (x >>= f).run s = (.ok b, s')) :
    ∃ a between, x.run s = (.ok a, between) ∧ (f a).run between = (.ok b, s') := by
  rw [run_bind] at ok
  rcases first : x.run s with ⟨err | a, between⟩
  · rw [first] at ok
    cases ok
  · rw [first] at ok
    exact ⟨a, between, rfl, ok⟩

namespace Engine

variable {σ : Type} {s s' : Session σ} {e : Engine σ}

/-- Making an engine changes no file. -/
structure Made (before after : Session σ) (e : Engine σ) : Prop where
  registry : e.registry = baseRegistry
  files : ∀ l, after.files.file? l = before.files.file? l

theorem made_create {cachePath : Text} (ok : (create cachePath : Action σ (Engine σ)).run s = (.ok e, s')) :
    Made s s' e := by
  unfold create at ok
  obtain ⟨_, _, read, ok⟩ := exists_of_run_bind ok
  cases read
  cases opened : Cache.openAt s.files cachePath with
  | error err =>
    rw [opened] at ok
    cases ok
  | ok result =>
    obtain ⟨cache, files⟩ := result
    rw [opened] at ok
    cases ok
    refine ⟨rfl, fun l => ?_⟩
    unfold Cache.openAt at opened
    split at opened
    · cases opened
    · split at opened
      · rename_i isDir
        cases opened
        exact FileSystem.file?_touch s.files (.inl isDir)
      · cases opened

theorem made_ofConfig {root : Text} {c : Config} (ok : (ofConfig root c : Action σ (Engine σ)).run s = (.ok e, s')) :
    Made s s' e := by
  unfold ofConfig at ok
  obtain ⟨_, _, read, ok⟩ := exists_of_run_bind ok
  cases read
  have directories := FileSystem.file?_makeDirectories s.files (c.cachePath root)
  generalize s.files.makeDirectories (c.cachePath root) = result at ok directories
  obtain ⟨files, _ | _⟩ := result
  · cases ok
  · obtain ⟨_, _, written, ok⟩ := exists_of_run_bind ok
    cases written
    obtain ⟨e₁, s₁, created, ok⟩ := exists_of_run_bind ok
    have made := made_create created
    cases ok
    exact ⟨made.registry, fun l => (made.files l).trans (directories l)⟩

end Engine

namespace CommandLine

variable {a : Arguments} {files : FileSystem} {e : Engine Unit} {built : Progress}

/-! ## Jobs -/

theorem Job.run_request {α : Type} (act : Action Unit α) (p : Progress) :
    (Job.request act).run p = ((act.run p.session).1.mapError .failure, { p with session := (act.run p.session).2 }) := by
  unfold Job.request
  have read : (get : Job Progress).run p = (.ok p, p) := rfl
  rw [run_bind, read]
  dsimp only
  generalize eq : act.run p.session = result
  have eq' : act.run.run p.session = result := eq
  rw [eq']
  rcases result with ⟨_ | _, _⟩ <;> rfl

/-- Saying something about each of some things. -/
theorem Job.run_say_each {α : Type} (f : α → Notice) (l : List α) (p : Progress) :
    (forIn l PUnit.unit fun x _ => do
        Job.say (f x)
        pure (ForInStep.yield PUnit.unit) : Job PUnit).run p = (.ok ⟨⟩, { p with notices := p.notices ++ l.map f }) := by
  induction l generalizing p with
  | nil =>
    rw [List.map_nil, List.append_nil]
    rfl
  | cons x l ih =>
    rw [List.forIn_cons, run_bind]
    show (forIn l PUnit.unit _ : Job PUnit).run { p with notices := p.notices ++ [f x] } = _
    rw [ih, List.append_assoc]
    rfl

/-! ## Building the engine -/

/-- A command line builds an engine on some files, with what has been done so far. -/
def Builds (a : Arguments) (files : FileSystem) (e : Engine Unit) (built : Progress) : Prop :=
  (buildEngine a).run { session := ⟨files, (), []⟩ } = (.ok e, built)

/-- What can be told of building an engine: its cache, its settings, and the files there are then. -/
def told (result : Except Notice (Engine Unit) × Progress) : Except Notice (Cache × Settings) × FileSystem :=
  (result.1.map fun e => (e.cache, e.settings), result.2.session.files)

theorem exists_builds {cache : Cache} {settings : Settings} {after : FileSystem}
    (ok : told ((buildEngine a).run { session := ⟨files, (), []⟩ }) = (.ok (cache, settings), after)) :
    ∃ e built, Builds a files e built ∧ e.cache = cache ∧ e.settings = settings ∧ built.session.files = after := by
  unfold Builds
  generalize (buildEngine a).run _ = result at ok
  obtain ⟨_ | e, built⟩ := result <;> cases ok
  exact ⟨e, built, rfl, rfl, rfl, rfl⟩

/-- What is known once the engine is built. -/
structure Ready (a : Arguments) (files : FileSystem) (e : Engine Unit) (built : Progress) : Prop where
  registry : e.registry = withFallbacks Engine.baseRegistry
  files : ∀ l, built.session.files.file? l = files.file? l
  stdout : built.stdout = []
  notices : built.notices = if a.verbose then e.settings.searchPath.dirs.map .searching else []

/-- A request that succeeds leaves what was printed and said. -/
theorem Job.of_run_request {α : Type} {act : Action Unit α} {p p' : Progress} {x : α}
    (ok : (Job.request act).run p = (.ok x, p')) :
    ∃ session, act.run p.session = (.ok x, session) ∧ p' = { p with session } := by
  rw [Job.run_request] at ok
  generalize act.run p.session = result at ok
  obtain ⟨_ | _, session⟩ := result <;> cases ok
  exact ⟨session, rfl, rfl⟩

theorem Builds.ready (builds : Builds a files e built) : Ready a files e built := by
  unfold Builds buildEngine at builds
  obtain ⟨_, _, read, builds⟩ := exists_of_run_bind builds
  cases read
  obtain ⟨config, _, requested, builds⟩ := exists_of_run_bind builds
  obtain ⟨s₁, loaded, rfl⟩ := Job.of_run_request requested
  obtain ⟨e₁, _, requested, builds⟩ := exists_of_run_bind builds
  obtain ⟨s₂, made, rfl⟩ := Job.of_run_request requested
  have start : s₁ = ⟨files, (), []⟩ := by
    split at loaded <;> cases loaded
    rfl
  subst start
  have ready := Engine.made_ofConfig made
  dsimp only at builds
  split at builds
  · rename_i verbose
    rw [run_bind, Job.run_say_each] at builds
    cases builds
    refine ⟨congrArg withFallbacks ready.registry, ready.files, rfl, ?_⟩
    rw [if_pos verbose]
    rfl
  · rename_i quiet
    cases builds
    exact ⟨congrArg withFallbacks ready.registry, ready.files, rfl, (if_neg quiet).symm⟩

end CommandLine

end TagTemplate
