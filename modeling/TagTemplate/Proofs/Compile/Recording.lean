/-
# Proofs.Compile.Recording -- runs whose handlers write down their calls

A compiler with a recording registry goes through the same steps as one with the
registry itself, and ends with the same text, state and log; only its handlers have
their calls as well (`records_compile`).

The calls are those of the dispatched nodes, in the same order: one call for each node
whose tag has a handler or a fallback, none for the others (`Compiler.Recorded`).
-/
import TagTemplate.Proofs.Compile.Advance
import TagTemplate.Proofs.Compile.Calls

namespace TagTemplate

set_option autoImplicit false

variable {σ : Type}

def NodeKind.site? : NodeKind → Option CallSite
  | .value tag attributes _ => some ⟨.value, tag, attributes⟩
  | .block tag attributes _ => some ⟨.block, tag, attributes⟩
  | _ => none

def Tree.site? (t : Tree) (id : NodeId) : Option CallSite := (t.kind? id).bind (·.site?)

def CompileState.recorded (s : CompileState σ) (calls : List Call) : CompileState (σ × List Call) where
  handlers := (s.handlers, calls)
  blocks := s.blocks
  dispatched := s.dispatched
  events := s.events

namespace Compiler

def recording (c : Compiler σ) : Compiler (σ × List Call) := ⟨c.tree, c.registry.recording⟩

/-- What is dispatched are values and blocks, and these are the calls that are made for them. -/
structure Recorded (c : Compiler σ) (s : CompileState σ) (calls : List Call) : Prop where
  tagged : ∀ id ∈ s.dispatched, (c.tree.site? id).isSome
  calls : calls.map Call.toCallSite = (s.dispatched.filterMap c.tree.site?).filter c.registry.answers

/-- The second step does what the first one does, and writes down the calls. -/
def Records (c : Compiler σ) (step : Step σ Text) (step' : Step (σ × List Call) Text) : Prop :=
  ∀ s calls, c.Recorded s calls →
    ∃ calls', step' (s.recorded calls) = ((step s).1, (step s).2.recorded calls') ∧ c.Recorded (step s).2 calls'

variable {c : Compiler σ}

theorem records_return (text : Text) : c.Records (pure text) (pure text) :=
  fun _ calls recorded => ⟨calls, rfl, recorded⟩

theorem Records.bind {first : Step σ Text} {first' : Step (σ × List Call) Text} {next : Text → Step σ Text}
    {next' : Text → Step (σ × List Call) Text} (one : c.Records first first')
    (two : ∀ text, c.Records (next text) (next' text)) : c.Records (first >>= next) (first' >>= next') := by
  intro s calls recorded
  obtain ⟨calls', eq, recorded'⟩ := one s calls recorded
  obtain ⟨calls'', eq', recorded''⟩ := two (first s).1 (first s).2 calls' recorded'
  refine ⟨calls'', ?_, recorded''⟩
  show next' (first' (s.recorded calls)).1 (first' (s.recorded calls)).2 = _
  rw [eq]
  exact eq'

/-- A further tag is dispatched. -/
theorem Recorded.dispatch {s : CompileState σ} {calls : List Call} (recorded : c.Recorded s calls) {id : NodeId}
    {site : CallSite} (tagged : c.tree.site? id = some site) {more : List Call}
    (called : more.map Call.toCallSite = [site].filter c.registry.answers) {s' : CompileState σ}
    (dispatched : s'.dispatched = s.dispatched ++ [id]) : c.Recorded s' (calls ++ more) where
  tagged i mem := by
    rw [dispatched] at mem
    rcases List.mem_append.1 mem with mem | mem
    · exact recorded.tagged i mem
    · rw [List.mem_singleton.1 mem, tagged]
      rfl
  calls := by
    rw [dispatched, List.filterMap_append, List.filter_append, List.map_append, recorded.calls, called]
    simp only [List.filterMap_cons, List.filterMap_nil, tagged]

/-- A tag with a handler makes one call, a tag without one makes none. -/
theorem records_dispatch {id : NodeId} {site : CallSite} (tagged : c.tree.site? id = some site)
    {handler : Option (Handler σ)} (answers : c.registry.answers site = handler.isSome) (text : Text)
    (missing : Event) :
    c.Records (dispatch id (handler.map fun h => h site.attributes text) missing)
      (dispatch id ((handler.map (Registry.recorded site.kind site.tag)).map fun h => h site.attributes text)
        missing) := by
  intro s calls recorded
  cases handler with
  | none =>
    have called : ([] : List Call).map Call.toCallSite = [site].filter c.registry.answers := by simp [answers]
    have after := recorded.dispatch tagged called
      (rfl : (dispatch id none missing s).2.dispatched = s.dispatched ++ [id])
    rw [List.append_nil] at after
    exact ⟨calls, rfl, after⟩
  | some h =>
    have called : [Call.mk site text].map Call.toCallSite = [site].filter c.registry.answers := by simp [answers]
    exact ⟨calls ++ [⟨site, text⟩], rfl, recorded.dispatch tagged called rfl⟩

theorem records_value (id : NodeId) (tag : Text) (attributes : Attributes) (raw : Text)
    (kind : c.tree.kind? id = some (.value tag attributes raw)) :
    c.Records (dispatchValue c.registry id tag attributes raw)
      (dispatchValue c.recording.registry id tag attributes raw) := by
  have tagged : c.tree.site? id = some ⟨.value, tag, attributes⟩ := by
    rw [Tree.site?, kind]
    rfl
  rw [dispatchValue, dispatchValue, recording, Registry.valueHandler?_recording]
  exact records_dispatch tagged rfl raw (.noValueHandler tag)

theorem records_block (id : NodeId) (tag : Text) (attributes : Attributes) (content : Text)
    (kind : c.tree.kind? id = some (.block tag attributes .closed)) :
    c.Records (dispatchBlock c.registry id tag attributes content)
      (dispatchBlock c.recording.registry id tag attributes content) := by
  have tagged : c.tree.site? id = some ⟨.block, tag, attributes⟩ := by
    rw [Tree.site?, kind]
    rfl
  rw [dispatchBlock, dispatchBlock, recording, Registry.blockHandler?_recording]
  exact records_dispatch tagged rfl content (.noBlockHandler tag)

theorem records_resolveWith {keep : Retention} {compile : List Text → NodeId → Step σ Text}
    {compile' : List Text → NodeId → Step (σ × List Call) Text}
    (concat : ∀ active ids, c.Records (concat (compile active) ids) (concat (compile' active) ids))
    (active : List Text) (name : Text) :
    c.Records (resolveWith keep compile active name) (resolveWith keep compile' active name) := by
  intro s calls recorded
  cases next : (s.blocks.slot name).bodies[(s.blocks.slot name).cursor]? with
  | none =>
    rw [resolveWith_of_none next, resolveWith_of_none (s := s.recorded calls) next]
    exact ⟨calls, rfl, recorded⟩
  | some body =>
    cases body with
    | compiled output =>
      rw [resolveWith_of_compiled next, resolveWith_of_compiled (s := s.recorded calls) next]
      exact ⟨calls, rfl, recorded⟩
    | pending ids =>
      rw [resolveWith_of_pending rfl next, resolveWith_of_pending (s := s.recorded calls) rfl next]
      have inside : c.Recorded (entered s name (s.blocks.slot name).cursor) calls := ⟨recorded.tagged, recorded.calls⟩
      obtain ⟨calls', eq, recorded'⟩ := concat (name :: active) ids _ calls inside
      refine ⟨calls', ?_, recorded'.tagged, recorded'.calls⟩
      have entered_eq : entered (s.recorded calls) name ((s.recorded calls).blocks.slot name).cursor
          = (entered s name (s.blocks.slot name).cursor).recorded calls := rfl
      rw [entered_eq, eq]
      rfl

theorem compositional_records (keep : Retention) (c : Compiler σ) : Compositional keep c c.recording c.Records where
  tree := rfl
  text := records_return
  bind := Records.bind
  value := records_value
  block := records_block
  body := records_resolveWith

/-- **Compiling with recording handlers is compiling**, with the calls of the dispatched tags in addition. -/
theorem records_compile (c : Compiler σ) (id : NodeId) (s : CompileState σ) (fresh : s.dispatched = []) :
    ∃ calls, c.recording.compile id (s.recorded []) = ((c.compile id s).1, (c.compile id s).2.recorded calls) ∧
      c.Recorded (c.compile id s).2 calls := by
  rw [compile_eq, compile_eq]
  apply (compositional_records .text c).node (c.depth s.blocks) [] id s []
  constructor <;> rw [fresh]
  · nofun
  · rfl

end Compiler

end TagTemplate
