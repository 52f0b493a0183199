/-
# Engine -- templates by name, compiled and kept

An engine has handlers, settings and a cache.  It works in a `Session`: the file
system, the state of the handlers, and the log, all of which survive an error.

`compile` always compiles; `getCompiled` and `compiledPath` answer from the
cache as long as the artifact of the template is fresh, and store a new one
otherwise, on a device that is sound unless another one is given.  The fresh artifact is the only thing they look at: neither the files
that the template extends nor the handlers or settings it was compiled with.
-/
import TagTemplate.Cache
import TagTemplate.Chain
import TagTemplate.Compilation
import TagTemplate.Compile

namespace TagTemplate

set_option autoImplicit false

/-- What requests read and change. -/
structure Session (σ : Type) where
  files : FileSystem
  /-- The state of the handlers. -/
  handlers : σ
  events : List Event := []

/-- A request that may fail; what it changed before stays. -/
abbrev Action (σ : Type) (α : Type) := ExceptT Error (StateM (Session σ)) α

namespace Action

variable {σ α : Type}

def note (e : Event) : Action σ Unit := modify fun s => { s with events := s.events ++ [e] }

def ofLogged (f : FileSystem → Logged α) : Action σ α := ExceptT.mk fun s =>
  let r := (f s.files).run []
  (r.1, { s with events := s.events ++ r.2 })

/-- A file operation; its error is an input or output error. -/
def ofFile : Except FileError α → Action σ α
  | .ok a => return a
  | .error e => throw (.io e)

end Action

/-- Replace the artifact of a source, given by its written path. -/
def Cache.replace {σ : Type} (c : Cache) (source contents : Text) (device : Device := {}) : Action σ Location := do
  let s ← get
  let (files, result) := c.store s.files source contents device
  set { s with files }
  match result with
  | .ok artifact => do
    Action.note (.wroteArtifact artifact)
    return artifact
  | .error cause => throw (.cacheWrite (c.artifact source) cause)

/-- Compiles templates found on a search path and keeps the results in a cache. -/
structure Engine (σ : Type) where
  registry : Registry σ
  settings : Settings := {}
  cache : Cache
  /-- Whether fresh artifacts are used; new ones are stored in any case. -/
  useCache : Bool := true

namespace Engine

variable {σ : Type}

def baseRegistry : Registry σ := Registry.registerValue {} includeTag includeHandler

def create (cachePath : Text) : Action σ (Engine σ) := do
  let s ← get
  match Cache.openAt s.files cachePath with
  | .error e => throw e
  | .ok (cache, files) => do
    set { s with files }
    return { registry := baseRegistry, cache }

/-! ## Compiling -/

def compileChain (e : Engine σ) (chain : Chain) : Action σ Compilation := do
  let s ← get
  let compiler : Compiler σ := { tree := chain.tree, registry := e.registry }
  let (output, t) := (compiler.compile chain.root).run { handlers := s.handlers, blocks := chain.blocks }
  let finished := Event.compiledChain (chain.visited.length + 1) chain.tree.size chain.diagnostics.length
  set { s with handlers := t.handlers, events := s.events ++ t.events ++ [finished] }
  return ⟨output, chain.diagnostics⟩

def compileSource (e : Engine σ) (source : Text) : Action σ Compilation := do
  e.compileChain (← Action.ofLogged fun fs => Chain.ofSource e.settings fs none source)

def find (e : Engine σ) (name : Text) : Action σ Template := do
  match ← Action.ofLogged fun fs => Chain.lookup e.settings fs name with
  | some t => return t
  | none => throw (.templateNotFound name)

def compileTemplate (e : Engine σ) (t : Template) : Action σ Compilation := do
  e.compileChain (← Action.ofLogged fun fs => Chain.ofTemplate e.settings fs t)

def compile (e : Engine σ) (name : Text) : Action σ Compilation := do
  e.compileTemplate (← e.find name)

/-! ## Serving from the cache -/

/-- Where the artifact of a name lies, compiled first unless it is fresh. -/
def compiledPath (e : Engine σ) (name : Text) (device : Device := {}) : Action σ Location := do
  let t ← e.find name
  let artifact := e.cache.artifact t.file.written
  let files := (← get).files
  if e.useCache && files.isFreshAt artifact t.file then do
    Action.note (.artifactFresh name)
    return artifact
  else do
    let c ← e.compileTemplate t
    e.cache.replace t.file.written c.artifact device

/-- The compiled text of a name, from the cache while that is fresh. -/
def getCompiled (e : Engine σ) (name : Text) (device : Device := {}) : Action σ Text := do
  let t ← e.find name
  let files := (← get).files
  match if e.useCache then e.cache.loadAt files t.file.written t.file else none with
  | some text => do
    Action.note (.servedFromCache name)
    return text
  | none => do
    let c ← e.compileTemplate t
    let _ ← e.cache.replace t.file.written c.artifact device
    return c.artifact

/-! ## Reporting -/

/-- The file of a diagnostic and its prepared text, which the offset refers to, if it can be read. -/
def reportSource? (e : Engine σ) (fs : FileSystem) (d : Diagnostic) : Option (Location × Text) := do
  let file ← d.file
  let source ← (fs.readAt file).toOption
  return (file, Source.prepare e.settings.options source)

end Engine

end TagTemplate
