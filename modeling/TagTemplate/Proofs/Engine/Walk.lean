/-
# Proofs.Engine.Walk -- when compiling succeeds, and which error it gives

Whether a template or a text in memory is compiled, and which error there is if it is
not, is decided by walking along its chain (`compile_decided`).  The handlers have no
say in it: once the chain is whole, it compiles.
-/
import TagTemplate.Proofs.Chain.Walk
import TagTemplate.Proofs.Engine

namespace TagTemplate.Engine

set_option autoImplicit false

open Chain

variable {σ : Type}

/-- Whether something succeeds does not change with what is made of it. -/
theorem map_unit {ε α β : Type} (f : α → β) (x : Except ε α) : (x.map f).map (fun _ => ()) = x.map fun _ => () := by
  cases x <;> rfl

def compilationOfChain (e : Engine σ) (handlers : σ) (chain : Chain) : Compilation :=
  ⟨chain.outputWith .text e.registry handlers, chain.diagnostics⟩

theorem compilationOf_eq (e : Engine σ) (fs : FileSystem) (handlers : σ) (t : Template) :
    e.compilationOf fs handlers t
      = ((Chain.ofTemplate e.settings fs t).run []).1.map (e.compilationOfChain handlers) := by
  unfold compilationOf
  cases ((Chain.ofTemplate e.settings fs t).run []).1 <;> rfl

theorem run_compileSource (e : Engine σ) (source : Text) (s : Session σ) :
    ((e.compileSource source).run s).1
      = ((Chain.ofSource e.settings s.files none source).run []).1.map (e.compilationOfChain s.handlers) := by
  rw [compileSource, run_bind, run_ofLogged]
  cases ((Chain.ofSource e.settings s.files none source).run []).1 with
  | ok chain => exact e.run_compileChain chain _
  | error err => rfl

abbrev sought (e : Engine σ) (fs : FileSystem) (name : Text) : Stage :=
  .seeking [] name (e.settings.searchPath.find? fs name)

/-- **Compiling the template of a name** is decided by the walk along its chain. -/
theorem decides_compile (e : Engine σ) (name : Text) (s : Session σ) :
    Decides e.settings s.files (.seeking [] name (e.settings.searchPath.find? s.files name))
      (((e.compile name).run s).1.map fun _ => ()) := by
  rw [run_compile]
  cases found : e.settings.searchPath.find? s.files name with
  | none => exact decides_of_verdict List.nodup_nil .refl .missing
  | some t =>
    dsimp only
    rw [compilationOf_eq, map_unit]
    exact decides_ofTemplate (SearchPath.of_findIn? found).2.2 name []

/-- **Compiling a text in memory** is decided by the walk along its chain. -/
theorem decides_compileSource (e : Engine σ) (source : Text) (s : Session σ) :
    Decides e.settings s.files (.holding [] none source) (((e.compileSource source).run s).1.map fun _ => ()) := by
  rw [run_compileSource, map_unit]
  exact decides_ofSource e.settings s.files source []

theorem eq_error_of_map {ε α : Type} {x : Except ε α} {err : ε} (eq : x.map (fun _ => ()) = .error err) :
    x = .error err := by
  cases x with
  | ok a => cases eq
  | error err' => cases eq; rfl

/-- **Compiling is decided by the walk along the chain**, from the template of a name and from a text in memory.
In memory, the template of the same name further down the search path is never found. -/
theorem compile_decided (e : Engine σ) (s : Session σ) (name source : Text) :
    Decides e.settings s.files (.seeking [] name (e.settings.searchPath.find? s.files name))
        (((e.compile name).run s).1.map fun _ => ()) ∧
      Decides e.settings s.files (.holding [] none source) (((e.compileSource source).run s).1.map fun _ => ()) ∧
      (e.settings.parent? source = some parentSentinel →
        ((e.compileSource source).run s).1 = .error (.templateNotFound parentSentinel)) := by
  have inMemory := e.decides_compileSource source s
  refine ⟨e.decides_compile name s, inMemory, fun names => ?_⟩
  exact eq_error_of_map ((inMemory.verdict _).2 ⟨_, .single (.look names), .missing⟩)

/-- Two templates that extend each other. -/
def circle : Session Unit where
  files := libraryOf [(['p'], extending ['q']), (['q'], extending ['p'])]
  handlers := ()

theorem compile_circle :
    ((libraryEngine.compile ['p']).run circle).1.map (fun _ => ()) = .error (.extendsCycle [['p']]) ∧
      libraryEngine.settings.parent? (extending parentSentinel) = some parentSentinel ∧
      ((libraryEngine.compileSource (extending parentSentinel)).run circle).1
        = .error (.templateNotFound parentSentinel) := by
  obtain ⟨named, -, inMemory⟩ := compile_decided libraryEngine circle ['p'] (extending parentSentinel)
  have parent : libraryEngine.settings.parent? (extending parentSentinel) = some parentSentinel := by decide +kernel
  let p : Template := ⟨['p'], [], [['p']]⟩
  let q : Template := ⟨['q'], [], [['q']]⟩
  have toQ : libraryEngine.settings.parent? (extending ['q']) = some ['q'] := by decide +kernel
  have toP : libraryEngine.settings.parent? (extending ['p']) = some ['p'] := by decide +kernel
  have readP : Step libraryEngine.settings circle.files (.seeking [] ['p'] (some p))
      (.holding [p.file] (some p) (extending ['q'])) := .read List.not_mem_nil rfl
  have readQ : Step libraryEngine.settings circle.files (.seeking [p.file] ['q'] (some q))
      (.holding [p.file, q.file] (some q) (extending ['p'])) := .read (by decide) rfl
  have around : Reaches libraryEngine.settings circle.files (.seeking [] ['p'] (some p))
      (.seeking [p.file, q.file] ['p'] (some p)) :=
    .head readP (.head (.look toQ) (.head readQ (.single (.look toP))))
  exact ⟨(named.verdict _).2 ⟨_, around, .cycle (List.mem_cons_self ..)⟩, parent, inMemory parent⟩

end TagTemplate.Engine
