/-
# Proofs.Engine.Requests -- requests in turn, and what they compile

Engines that work in one session are asked for one name after another (`Visit`).  A
rendering compiles more than the name it is for: whatever the script of its renderer asks
the loader for, unless that was read before.  `Session.asked` lists, in their order, all
names that are compiled in some visits, with the engine and the state of the handlers at
that time.

The text of a name need not be what it compiles to: where two templates have the same
artifact, the text of one can be read for that of the other (`Asking.Shadows`).

What every request for one of these names keeps, all visits keep, and each of the names is
compiled in a session where it holds (`afterAll_keeps`).  For one script that is an
induction on the script, and for several visits one on the list of visits.
-/
import TagTemplate.Proofs.Chain.Outcome
import TagTemplate.Proofs.Engine.Play

namespace TagTemplate

set_option autoImplicit false

variable {σ α : Type}

/-! ## Requests -/

inductive Request where
  | getCompiled (name : Text)
  | compiledPath (name : Text)
  | render (name : Text) (context : Value) (R : Renderer)

def Request.name : Request → Text
  | .getCompiled name | .compiledPath name | .render name _ _ => name

/-- A request to an engine at a time. -/
structure Visit (σ : Type) where
  engine : Engine σ
  request : Request
  now : Nat

def Visit.after (v : Visit σ) (s : Session σ) : Session σ :=
  match v.request with
  | .getCompiled name => ((v.engine.getCompiled name).run (s.atTime v.now)).2
  | .compiledPath name => ((v.engine.compiledPath name).run (s.atTime v.now)).2
  | .render name context R => ((v.engine.render name context R).run (s.atTime v.now)).2

def Session.afterAll (s : Session σ) (visits : List (Visit σ)) : Session σ := visits.foldl (fun s v => v.after s) s

/-- A name to compile: by which engine, and in which state of the handlers. -/
structure Asking (σ : Type) where
  engine : Engine σ
  name : Text
  handlers : σ

/-- What compiling a name comes to on its own. -/
def Asking.text (a : Asking σ) (fs : FileSystem) : Except Error Text :=
  ((a.engine.compile a.name).run { files := fs, handlers := a.handlers }).1.map (·.artifact)

theorem Asking.text_eq (a : Asking σ) (fs : FileSystem) :
    a.text fs =
      match a.engine.settings.searchPath.find? fs a.name with
      | some t => (a.engine.compilationOf fs a.handlers t).map (·.artifact)
      | none => .error (.templateNotFound a.name) := by
  rw [text, Engine.run_compile]
  cases a.engine.settings.searchPath.find? fs a.name <;> rfl

theorem Asking.text_of_find? {a : Asking σ} {fs : FileSystem} {t : Template}
    (found : a.engine.settings.searchPath.find? fs a.name = some t) :
    a.text fs = (a.engine.compilationOf fs a.handlers t).map (·.artifact) := by
  rw [text_eq, found]

/-- Compiling a name gives its text, whatever was done before. -/
theorem Asking.text_eq_compile (e : Engine σ) (name : Text) (s : Session σ) :
    Asking.text ⟨e, name, s.handlers⟩ s.files = ((e.compile name).run s).1.map (·.artifact) := by
  rw [text_eq, Engine.run_compile]
  dsimp only
  cases e.settings.searchPath.find? s.files name <;> rfl

/-- The artifact of one thing that is asked for stands where that of another one would, and the texts differ.
If the file is the same, and settings and handlers are, it extends the template of its name further down
the search path, and there the two find different ones. -/
structure Asking.Shadows (a b : Asking σ) (fs : FileSystem) (t t' : Template) : Prop where
  found : a.engine.settings.searchPath.find? fs a.name = some t
  found' : b.engine.settings.searchPath.find? fs b.name = some t'
  artifact : a.engine.cache.artifact t.file.written = b.engine.cache.artifact t'.file.written
  texts : a.text fs ≠ b.text fs
  cause : t.file = t'.file → a.engine.settings = b.engine.settings → a.handlers = b.handlers →
    ∃ source, fs.readAt t'.file = .ok source ∧ b.engine.settings.extends? source = some parentSentinel ∧
      b.engine.settings.searchPath.findAfter? fs t.dir t.name
        ≠ b.engine.settings.searchPath.findAfter? fs t'.dir t'.name

/-! ## What is compiled -/

/-- What is compiled for a script, one name after the other. -/
def Engine.asks (e : Engine σ) : Loaded → Script α → Session σ → List (Asking σ)
  | _, .done _, _ | _, .fails, _ => []
  | loaded, .load name next, s =>
    match read? loaded name with
    | some compiled => e.asks loaded (next (.found compiled)) s
    | none =>
      let answer := Loading.ofAnswer ((e.getCompiled name).run s).1
      ⟨e, name, s.handlers⟩ :: e.asks (keep loaded name answer) (next answer) ((e.getCompiled name).run s).2

def Visit.asks (v : Visit σ) (s : Session σ) : List (Asking σ) :=
  ⟨v.engine, v.request.name, s.handlers⟩ ::
    match v.request with
    | .render name context R =>
      match (v.engine.getCompiled name).run (s.atTime v.now) with
      | (.ok compiled, s) => v.engine.asks [(name, compiled)] (R name compiled context) s
      | (.error _, _) => []
    | _ => []

def Session.asked (s : Session σ) : List (Visit σ) → List (Asking σ)
  | [] => []
  | v :: visits => v.asks s ++ (v.after s).asked visits

/-- An asking is made of an engine, in a session in which something holds. -/
def Asking.MadeOf (e : Engine σ) (I : Session σ → Prop) (a : Asking σ) : Prop :=
  ∃ present, I present ∧ a = ⟨e, a.name, present.handlers⟩

section Keeps

variable {I : Session σ → Prop}

/-- **What requests keep, a script keeps**, and all that it asks for is asked for where that holds. -/
theorem Engine.play_keeps {e : Engine σ} {loaded : Loaded} {script : Script α} {s : Session σ}
    (keeps : ∀ name present after, ⟨e, name, present.handlers⟩ ∈ e.asks loaded script s →
      e.Requested name present after → I present → I after) (holds : I s) :
    I ((e.play loaded script).run s).2 ∧ ∀ a ∈ e.asks loaded script s, a.MadeOf e I := by
  induction script generalizing loaded s with
  | done a => exact ⟨holds, nofun⟩
  | fails => exact ⟨holds, nofun⟩
  | load name next ih =>
    rw [Engine.asks] at keeps ⊢
    rw [play_load, run_bind, run_load]
    cases known : read? loaded name with
    | some compiled =>
      rw [known] at keeps
      exact ih _ keeps holds
    | none =>
      rw [known] at keeps
      dsimp only at keeps ⊢
      have holds' := keeps name s _ (List.mem_cons_self ..) (e.requested_getCompiled name s) holds
      obtain ⟨after, made⟩ := ih _ (fun name present after mem => keeps name present after (List.mem_cons_of_mem _ mem)) holds'
      exact ⟨after, List.forall_mem_cons.2 ⟨⟨s, holds, rfl⟩, made⟩⟩

variable (time : ∀ s now, I s → I (s.atTime now))
include time

theorem Visit.after_keeps {v : Visit σ} {s : Session σ}
    (keeps : ∀ name present after, ⟨v.engine, name, present.handlers⟩ ∈ v.asks s →
      v.engine.Requested name present after → I present → I after) (holds : I s) :
    I (v.after s) ∧ ∀ a ∈ v.asks s, a.MadeOf v.engine I := by
  have holds' := time s v.now holds
  have first (after : Session σ) : v.engine.Requested v.request.name (s.atTime v.now) after → I after := fun requested =>
    keeps _ (s.atTime v.now) after (List.mem_cons_self ..) requested holds'
  unfold Visit.after
  unfold Visit.asks at keeps ⊢
  rw [List.forall_mem_cons]
  cases request : v.request with
  | getCompiled name =>
    rw [request] at first
    exact ⟨first _ (v.engine.requested_getCompiled name _), ⟨s, holds, rfl⟩, nofun⟩
  | compiledPath name =>
    rw [request] at first
    exact ⟨first _ (v.engine.requested_compiledPath name _), ⟨s, holds, rfl⟩, nofun⟩
  | render name context R =>
    rw [request] at first keeps
    have compiled := first _ (v.engine.requested_getCompiled name _)
    dsimp only at keeps ⊢
    rw [Engine.render, run_bind]
    rcases run : (v.engine.getCompiled name).run (s.atTime v.now) with ⟨err | text, s'⟩
    · rw [run] at compiled
      exact ⟨compiled, ⟨s, holds, rfl⟩, nofun⟩
    · rw [run] at compiled keeps
      have played := Engine.play_keeps (fun name present after mem => keeps name present after (List.mem_cons_of_mem _ mem))
        compiled
      refine ⟨?_, ⟨s, holds, rfl⟩, played.2⟩
      dsimp only
      rw [Engine.renderCompiled, run_map]
      have after := played.1
      generalize (v.engine.play [(name, text)] (R name text context)).run s' = run at after ⊢
      rcases run with ⟨_ | _, _⟩ <;> exact after

/-- **So do visits**, one after another. -/
theorem Session.afterAll_keeps {visits : List (Visit σ)} {s : Session σ}
    (keeps : ∀ v ∈ visits, ∀ name present after, ⟨v.engine, name, present.handlers⟩ ∈ s.asked visits →
      v.engine.Requested name present after → I present → I after) (holds : I s) :
    I (s.afterAll visits) ∧ ∀ a ∈ s.asked visits, ∃ v ∈ visits, a.MadeOf v.engine I := by
  induction visits generalizing s with
  | nil => exact ⟨holds, nofun⟩
  | cons v visits ih =>
    obtain ⟨after, made⟩ := Visit.after_keeps time (fun name present after mem =>
      keeps v (List.mem_cons_self ..) name present after (List.mem_append_left _ mem)) holds
    obtain ⟨afterAll, made'⟩ := ih (fun w mem name present after asked =>
      keeps w (List.mem_cons_of_mem v mem) name present after (List.mem_append_right _ asked)) after
    refine ⟨afterAll, fun a mem => ?_⟩
    rcases List.mem_append.1 mem with mem | mem
    · exact ⟨v, List.mem_cons_self .., made a mem⟩
    · obtain ⟨w, w_mem, made⟩ := made' a mem
      exact ⟨w, List.mem_cons_of_mem v w_mem, made⟩

end Keeps

/-- What is compiled in some visits is asked of one of their engines, in the state that the handlers can be in. -/
theorem Session.of_mem_asked {visits : List (Visit σ)} {s : Session σ} {registry : Registry σ}
    (handled : ∀ v ∈ visits, v.engine.registry = registry) {a : Asking σ} (mem : a ∈ s.asked visits) :
    ∃ v ∈ visits, a.engine = v.engine ∧ (registry.Pure → a.handlers = s.handlers) := by
  have keeps := Session.afterAll_keeps (I := fun present => registry.Pure → present.handlers = s.handlers)
    (fun _ _ same => same)
    (fun v v_mem _ present after _ requested same isPure =>
      (requested.2 ((handled v v_mem).symm ▸ isPure)).trans (same isPure)) fun _ => rfl
  obtain ⟨v, v_mem, present, same, eq⟩ := keeps.2 a mem
  rw [eq]
  exact ⟨v, v_mem, rfl, same⟩

end TagTemplate
