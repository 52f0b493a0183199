/-
# Proofs.Engine -- what a request answers and what it changes

Compiling reads the files and leaves them alone, and what it comes to depends on
the files, the state of the handlers and the template only (`compilationOf`).  The
two requests that use the cache either change no file or compile the template and
store the result (`Effect`).  What `getCompiled` answers is the artifact that was
there, or the one it stores (`run_getCompiled`).
-/
import TagTemplate.Proofs.Cache
import TagTemplate.Proofs.Compile.Handlers
import TagTemplate.Proofs.Compile.Output

namespace TagTemplate

set_option autoImplicit false

variable {σ : Type}

def Session.atTime (s : Session σ) (now : Nat) : Session σ := { s with files := { s.files with now } }

namespace Engine

variable (e : Engine σ)

/-! ## Compiling -/

def compilationOf (fs : FileSystem) (handlers : σ) (t : Template) : Except Error Compilation :=
  match ((Chain.ofTemplate e.settings fs t).run []).1 with
  | .ok chain => .ok ⟨chain.outputWith .text e.registry handlers, chain.diagnostics⟩
  | .error err => .error err

/-- What is kept by a step: the files, and the state of handlers that leave it alone. -/
structure Kept (before after : Session σ) : Prop where
  files : after.files = before.files
  handlers : e.registry.Pure → after.handlers = before.handlers

theorem run_ofLogged {α : Type} (f : FileSystem → Logged α) (s : Session σ) :
    (Action.ofLogged f).run s
      = (((f s.files).run []).1, { s with events := s.events ++ ((f s.files).run []).2 }) := rfl

def lookedUp (name : Text) (s : Session σ) : Session σ :=
  { s with events := s.events ++ SearchPath.lookupEvents name (e.settings.searchPath.find? s.files name) }

/-- Finding a template changes nothing but the log. -/
theorem run_find (name : Text) (s : Session σ) :
    (e.find name).run s =
      ((match e.settings.searchPath.find? s.files name with
        | some t => .ok t
        | none => .error (.templateNotFound name)), e.lookedUp name s) := by
  unfold find lookedUp
  rw [run_bind, run_ofLogged]
  cases found : e.settings.searchPath.find? s.files name with
  | none =>
    simp only [Chain.lookup, run_bind, Logged.run_note, found]
    rfl
  | some t =>
    simp only [Chain.lookup, run_bind, Logged.run_note, found]
    rfl

/-- What every request for a name does first. -/
theorem run_request {α : Type} (name : Text) (act : Template → Session σ → Action σ α) (s : Session σ) :
    (do
      let t ← e.find name
      let s ← get
      act t s : Action σ α).run s =
      match e.settings.searchPath.find? s.files name with
      | some t => (act t (e.lookedUp name s)).run (e.lookedUp name s)
      | none => (.error (.templateNotFound name), e.lookedUp name s) := by
  rw [run_bind, run_find]
  cases e.settings.searchPath.find? s.files name with
  | none => rfl
  | some t =>
    show ((get >>= act t : Action σ α).run (e.lookedUp name s)) = _
    rw [run_bind]
    rfl

theorem run_compileTemplate (t : Template) (s : Session σ) :
    ((e.compileTemplate t).run s).1 = e.compilationOf s.files s.handlers t
      ∧ e.Kept s ((e.compileTemplate t).run s).2 := by
  unfold compileTemplate compilationOf
  rw [run_bind, run_ofLogged]
  cases built : ((Chain.ofTemplate e.settings s.files t).run []).1 with
  | error err => exact ⟨rfl, rfl, fun _ => rfl⟩
  | ok chain =>
    refine ⟨rfl, rfl, fun pure => ?_⟩
    exact @Compiler.keeps_compileWith _ ⟨chain.tree, e.registry⟩ .text pure chain.root (chain.initial s.handlers)

theorem run_compile (name : Text) (s : Session σ) :
    ((e.compile name).run s).1 =
      match e.settings.searchPath.find? s.files name with
      | some t => e.compilationOf s.files s.handlers t
      | none => .error (.templateNotFound name) := by
  unfold compile
  rw [run_bind, run_find]
  cases e.settings.searchPath.find? s.files name with
  | none => rfl
  | some t => exact (e.run_compileTemplate t (e.lookedUp name s)).1

theorem compilationOf_eq_ok_iff {fs : FileSystem} {handlers : σ} {t : Template} {compilation : Compilation} :
    e.compilationOf fs handlers t = .ok compilation ↔
      ∃ files chain, Chain.Reads e.settings fs t files chain ∧
        compilation = ⟨chain.outputWith .text e.registry handlers, chain.diagnostics⟩ := by
  unfold compilationOf
  constructor
  · intro ok
    cases built : ((Chain.ofTemplate e.settings fs t).run []).1 with
    | error err =>
      rw [built] at ok
      cases ok
    | ok chain =>
      rw [built] at ok
      cases ok
      obtain ⟨files, reads⟩ := Chain.ofTemplate_eq_ok_iff.1 built
      exact ⟨files, chain, reads, rfl⟩
  · rintro ⟨files, chain, reads, rfl⟩
    rw [Chain.ofTemplate_eq_ok_iff.2 ⟨files, reads⟩]

/-! ## Requests that use the cache -/

/-- What a request for a name makes of the files. -/
inductive Effect (fs : FileSystem) (handlers : σ) (name : Text) : FileSystem → Prop where
  /-- It changes nothing. -/
  | none : Effect fs handlers name fs
  /-- It compiles the template and tries to store the artifact. -/
  | stored {t : Template} {compilation : Compilation}
      (found : e.settings.searchPath.find? fs name = some t)
      (compiled : e.compilationOf fs handlers t = .ok compilation) :
      Effect fs handlers name (e.cache.store fs t.file.written compilation.artifact).1

/-- What a request for a name does to a session. -/
def Requested (name : Text) (before after : Session σ) : Prop :=
  e.Effect before.files before.handlers name after.files ∧ (e.registry.Pure → after.handlers = before.handlers)

theorem run_replace (c : Cache) (source contents : Text) (s : Session σ) (d : Device := {}) :
    ((c.replace source contents d).run s).2.files = (c.store s.files source contents d).1
      ∧ ((c.replace source contents d).run s).2.handlers = s.handlers
      ∧ ((c.replace source contents d).run s).1 =
        match (c.store s.files source contents d).2 with
        | .ok artifact => .ok artifact
        | .error cause => .error (.cacheWrite (c.artifact source) cause) := by
  unfold Cache.replace
  have read : (get : Action σ (Session σ)).run s = (.ok s, s) := rfl
  rw [run_bind, read]
  dsimp only
  rcases c.store s.files source contents d with ⟨files, _ | _⟩ <;> exact ⟨rfl, rfl, rfl⟩

/-- Compiling a template and storing its artifact, as both requests do. -/
theorem requested_compile_and_store {α : Type} {t : Template} {s : Session σ} {name : Text}
    (found : e.settings.searchPath.find? s.files name = some t) (answer : Compilation → Location → α) :
    e.Requested name s ((do
      let compilation ← e.compileTemplate t
      let artifact ← e.cache.replace t.file.written compilation.artifact
      return answer compilation artifact : Action σ α).run s).2 := by
  obtain ⟨output, kept⟩ := e.run_compileTemplate t s
  rw [run_bind]
  rcases eq : (e.compileTemplate t).run s with ⟨err | compilation, s'⟩
  · rw [eq] at kept
    exact ⟨kept.files ▸ .none, kept.handlers⟩
  · rw [eq] at kept output
    obtain ⟨files, handlers, -⟩ := run_replace e.cache t.file.written compilation.artifact s'
    have requested : e.Requested name s ((e.cache.replace t.file.written compilation.artifact).run s').2 := by
      refine ⟨?_, fun pure => by rw [handlers, kept.handlers pure]⟩
      rw [files, kept.files]
      exact .stored found output.symm
    dsimp only
    rw [run_bind]
    generalize (e.cache.replace t.file.written compilation.artifact).run s' = run at requested ⊢
    rcases run with ⟨_ | _, _⟩ <;> exact requested

theorem requested_getCompiled (name : Text) (s : Session σ) :
    e.Requested name s ((e.getCompiled name).run s).2 := by
  unfold getCompiled
  rw [run_request]
  cases found : e.settings.searchPath.find? s.files name with
  | none => exact ⟨.none, fun _ => rfl⟩
  | some t =>
    dsimp only
    split
    · exact ⟨.none, fun _ => rfl⟩
    · exact e.requested_compile_and_store (s := e.lookedUp name s) found fun compilation _ => compilation.artifact

theorem requested_compiledPath (name : Text) (s : Session σ) :
    e.Requested name s ((e.compiledPath name).run s).2 := by
  unfold compiledPath
  rw [run_request]
  cases found : e.settings.searchPath.find? s.files name with
  | none => exact ⟨.none, fun _ => rfl⟩
  | some t =>
    dsimp only
    split
    · exact ⟨.none, fun _ => rfl⟩
    · have requested := e.requested_compile_and_store (s := e.lookedUp name s) found fun _ artifact => artifact
      simp only [bind_pure] at requested
      exact requested

/-! ## What is answered -/

/-- What a run of a request answers, and the files it leaves. -/
def outcomeOf {α : Type} (act : Action σ α) (s : Session σ) : Except Error α × FileSystem :=
  ((act.run s).1, (act.run s).2.files)

/-- What a request for a name comes to, and the files it leaves: `served` is its answer from the cache, if
there is one, and `made` its answer when the template has been compiled. -/
def answerOf {α : Type} (served : Template → Option α) (made : Template → Compilation → α) (name : Text)
    (s : Session σ) (d : Device := {}) : Except Error α × FileSystem :=
  match e.settings.searchPath.find? s.files name with
  | none => (.error (.templateNotFound name), s.files)
  | some t =>
    match served t with
    | some a => (.ok a, s.files)
    | none =>
      match e.compilationOf s.files s.handlers t with
      | .error err => (.error err, s.files)
      | .ok compilation =>
        match e.cache.store s.files t.file.written compilation.artifact d with
        | (files, .ok _) => (.ok (made t compilation), files)
        | (files, .error cause) => (.error (.cacheWrite (e.cache.artifact t.file.written) cause), files)

def servedPath (fs : FileSystem) (t : Template) : Option Location :=
  if e.useCache && fs.isFreshAt (e.cache.artifact t.file.written) t.file then some (e.cache.artifact t.file.written)
  else none

def servedText (fs : FileSystem) (t : Template) : Option Text :=
  if e.useCache then e.cache.loadAt fs t.file.written t.file else none

/-- Compiling a template and storing its artifact, whatever is answered then. -/
theorem outcomeOf_compile_and_store {α : Type} (answer : Compilation → Location → α) (t : Template) (s : Session σ)
    (d : Device) :
    outcomeOf (do
      let compilation ← e.compileTemplate t
      let artifact ← e.cache.replace t.file.written compilation.artifact d
      return answer compilation artifact) s =
      match e.compilationOf s.files s.handlers t with
      | .error err => (.error err, s.files)
      | .ok compilation =>
        match e.cache.store s.files t.file.written compilation.artifact d with
        | (files, .ok _) => (.ok (answer compilation (e.cache.artifact t.file.written)), files)
        | (files, .error cause) => (.error (.cacheWrite (e.cache.artifact t.file.written) cause), files) := by
  obtain ⟨output, kept⟩ := e.run_compileTemplate t s
  unfold outcomeOf
  rw [run_bind]
  rcases compiled : (e.compileTemplate t).run s with ⟨err | compilation, s'⟩
  · rw [compiled] at output kept
    rw [← output, kept.files]
  · rw [compiled] at output kept
    rw [← output]
    dsimp only
    obtain ⟨files, -, replaced⟩ := run_replace e.cache t.file.written compilation.artifact s' d
    have named := @Cache.eq_artifact_of_store e.cache s.files t.file.written compilation.artifact d
    rw [kept.files] at files replaced
    rw [run_bind]
    generalize (e.cache.replace t.file.written compilation.artifact d).run s' = run at files replaced ⊢
    generalize e.cache.store s.files t.file.written compilation.artifact d = result at files replaced named ⊢
    rcases run with ⟨_ | l, after⟩ <;> rcases result with ⟨stored, _ | l'⟩ <;> cases replaced <;> cases files
    · rfl
    · obtain rfl := named rfl
      rfl

theorem outcomeOf_getCompiled (name : Text) (s : Session σ) (d : Device := {}) :
    outcomeOf (e.getCompiled name d) s =
      e.answerOf (e.servedText s.files) (fun _ compilation => compilation.artifact) name s d := by
  unfold getCompiled outcomeOf answerOf servedText
  rw [run_request]
  cases e.settings.searchPath.find? s.files name with
  | none => rfl
  | some t =>
    dsimp only
    have same : (e.lookedUp name s).files = s.files := rfl
    rw [same]
    cases if e.useCache then e.cache.loadAt s.files t.file.written t.file else none with
    | some text => rfl
    | none => exact e.outcomeOf_compile_and_store (fun compilation _ => compilation.artifact) t (e.lookedUp name s) d

theorem outcomeOf_compiledPath (name : Text) (s : Session σ) (d : Device := {}) :
    outcomeOf (e.compiledPath name d) s =
      e.answerOf (e.servedPath s.files) (fun t _ => e.cache.artifact t.file.written) name s d := by
  unfold compiledPath outcomeOf answerOf servedPath
  rw [run_request]
  cases e.settings.searchPath.find? s.files name with
  | none => rfl
  | some t =>
    dsimp only
    have same : (e.lookedUp name s).files = s.files := rfl
    rw [same]
    cases e.useCache && s.files.isFreshAt (e.cache.artifact t.file.written) t.file with
    | true => rfl
    | false =>
      have stored := e.outcomeOf_compile_and_store (fun _ artifact => artifact) t (e.lookedUp name s) d
      simp only [bind_pure] at stored
      exact stored

/-- **What `getCompiled` answers**: the artifact that was there, or the one it makes, unless that cannot be stored. -/
theorem run_getCompiled (name : Text) (s : Session σ) :
    ((e.getCompiled name).run s).1 =
      match e.settings.searchPath.find? s.files name with
      | none => .error (.templateNotFound name)
      | some t =>
        match if e.useCache then e.cache.loadAt s.files t.file.written t.file else none with
        | some text => .ok text
        | none =>
          match e.compilationOf s.files s.handlers t with
          | .error err => .error err
          | .ok compilation =>
            match (e.cache.store s.files t.file.written compilation.artifact).2 with
            | .ok _ => .ok compilation.artifact
            | .error cause => .error (.cacheWrite (e.cache.artifact t.file.written) cause) := by
  have answered := congrArg (·.1) (e.outcomeOf_getCompiled name s)
  unfold answerOf servedText at answered
  refine answered.trans ?_
  cases e.settings.searchPath.find? s.files name with
  | none => rfl
  | some t =>
    dsimp only
    cases if e.useCache then e.cache.loadAt s.files t.file.written t.file else none with
    | some text => rfl
    | none =>
      cases e.compilationOf s.files s.handlers t with
      | error err => rfl
      | ok compilation =>
        dsimp only
        generalize e.cache.store s.files t.file.written compilation.artifact = result
        rcases result with ⟨_, _ | _⟩ <;> rfl

theorem getCompiled_eq_ok {name : Text} {s : Session σ} {text : Text}
    (ok : ((e.getCompiled name).run s).1 = .ok text) :
    ∃ t, e.settings.searchPath.find? s.files name = some t ∧
      (e.cache.loadAt s.files t.file.written t.file = some text ∨
        ∃ compilation, e.compilationOf s.files s.handlers t = .ok compilation ∧ text = compilation.artifact) := by
  rw [run_getCompiled] at ok
  cases found : e.settings.searchPath.find? s.files name with
  | none =>
    rw [found] at ok
    cases ok
  | some t =>
    rw [found] at ok
    dsimp only at ok
    refine ⟨t, rfl, ?_⟩
    split at ok
    · rename_i text' loaded
      cases ok
      split at loaded
      · exact .inl loaded
      · cases loaded
    · split at ok
      · cases ok
      · rename_i compilation compiled
        split at ok
        · cases ok
          exact .inr ⟨compilation, compiled, rfl⟩
        · cases ok

end Engine

end TagTemplate
