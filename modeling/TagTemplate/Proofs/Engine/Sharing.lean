/-
# Proofs.Engine.Sharing -- many requests, one cache

An artifact lies where the written path of the file of its template says.  What it
says depends on more than that path: on the settings and handlers of the engine that
compiled it, and on the name and the directory that the file was found by, which decide
what `__parent__` finds.  So an engine can be answered with the text of something else
that was asked before (`Asking.Shadows`), and the two differ in one of those, unless the
paths of two files have the same digest.

It is answered with nothing else, as long as no name on the way leads into the folder of
the cache (`Engine.Steady`): an answer is what compiling comes to at present, errors
included, or what shadows it (`getCompiled_of_shared_cache`).  For one engine with
handlers that leave their state alone that is what compiling came to in the beginning, so
the order of requests does not matter unless one file is found by two names that extend
different templates (`getCompiled_of_one_engine`).

The invariant behind this is `Stocked`: a session differs from the first one in the folder
of the cache alone, and every artifact there is the text of something that was asked.
-/
import TagTemplate.Proofs.Cache.Ready
import TagTemplate.Proofs.Chain.Outcome
import TagTemplate.Proofs.Engine.Requests

namespace TagTemplate

set_option autoImplicit false

variable {σ : Type}

namespace Engine

/-! ## Names that stay out of the cache -/

/-- No directory of the search path leads into the folder of the cache by a name. -/
def Avoids (e : Engine σ) (name : Text) : Prop :=
  ∀ dir ∈ e.settings.searchPath.dirs, ¬ e.cache.root ++ [Cache.folder] <+: dir ++ Path.names name

/-- The names that may be looked up to compile a name: itself, and those that files of such a name extend. -/
inductive Seeks (e : Engine σ) (fs : FileSystem) (name : Text) : Text → Prop where
  | self : Seeks e fs name name
  | extended {n : Text} (sought : Seeks e fs name n) {dir : Location} (mem : dir ∈ e.settings.searchPath.dirs)
      {source target : Text} (reads : fs.readAt (dir ++ Path.names n) = .ok source)
      (extends' : e.settings.extends? source = some target) (ne : target ≠ parentSentinel) : Seeks e fs name target

/-- Nothing that may be looked up to compile a name leads into the folder of the cache. -/
def Steady (e : Engine σ) (fs : FileSystem) (name : Text) : Prop := ∀ n, e.Seeks fs name n → e.Avoids n

/-- Beside the cache no name leads into it. -/
theorem steady_of_beside {e : Engine σ} (beside : ∀ dir ∈ e.settings.searchPath.dirs, e.cache.Beside dir)
    (fs : FileSystem) (name : Text) : e.Steady fs name := by
  intro n _ dir mem
  exact ((beside dir mem).below (List.prefix_append dir (Path.names n))).not_below

section Kept

variable {e : Engine σ} {fs fs' : FileSystem} (kept : e.cache.Kept fs fs')
include kept

theorem Avoids.along {name : Text} (avoids : e.Avoids name) :
    ∀ dir ∈ e.settings.searchPath.dirs, fs.SameAlong fs' dir (Path.names name) := by
  intro dir mem names above
  refine kept.kind _ fun inside => avoids dir mem (inside.trans ?_)
  exact (List.prefix_append_right_inj dir).2 above

theorem Avoids.find?_kept {name : Text} (avoids : e.Avoids name) :
    e.settings.searchPath.find? fs' name = e.settings.searchPath.find? fs name :=
  SearchPath.findIn?_along name (avoids.along kept)

/-- A template as a lookup finds it, on the way from a name. -/
structure OnWay (e : Engine σ) (fs : FileSystem) (name : Text) (t : Template) : Prop where
  sought : e.Seeks fs name t.name
  place : ∃ dir ∈ e.settings.searchPath.dirs, t = ⟨t.name, dir, dir ++ Path.names t.name⟩

omit kept in
theorem Seeks.onWay {name n : Text} (sought : e.Seeks fs name n) {t : Template}
    (place : ∃ dir ∈ e.settings.searchPath.dirs, t = ⟨n, dir, dir ++ Path.names n⟩ ∧ fs.isFileAt t.file = true) :
    e.OnWay fs name t := by
  obtain ⟨dir, mem, rfl, -⟩ := place
  exact ⟨sought, dir, mem, rfl⟩

theorem Steady.find?_kept {name : Text} (steady : e.Steady fs name) :
    e.settings.searchPath.find? fs' name = e.settings.searchPath.find? fs name :=
  (steady name .self).find?_kept kept

/-- On the way from a name, chains find and read the same. -/
theorem Steady.agree {name : Text} (steady : e.Steady fs name) :
    Chain.Agree e.settings fs fs' (e.OnWay fs name) where
  texts t onWay := by
    obtain ⟨sought, dir, mem, eq⟩ := onWay
    have apart : ¬ e.cache.root ++ [Cache.folder] <+: t.file := by
      rw [eq]
      exact steady _ sought dir mem
    exact FileSystem.readAt_congr (kept.kind _ apart) (kept.file _ apart)
  lookups t source target onWay reads extends' := by
    obtain ⟨sought, dir, mem, eq⟩ := onWay
    unfold Chain.target?
    by_cases sentinel : target = parentSentinel
    · rw [if_pos sentinel, if_pos sentinel]
      refine ⟨SearchPath.findAfter?_along ((steady _ sought).along kept) t.dir, fun next found => ?_⟩
      exact sought.onWay (SearchPath.file_of_findAfter? found)
    · rw [if_neg sentinel, if_neg sentinel]
      rw [eq] at reads
      have sought' : e.Seeks fs name target := sought.extended mem reads extends' sentinel
      refine ⟨(steady _ sought').find?_kept kept, fun next found => ?_⟩
      exact sought'.onWay (SearchPath.file_of_findIn? found)

/-- **Compiling is not changed by what happens in the cache.** -/
theorem Steady.compilationOf_kept {name : Text} (steady : e.Steady fs name) {t : Template}
    (found : e.settings.searchPath.find? fs name = some t) (handlers : σ) :
    e.compilationOf fs' handlers t = e.compilationOf fs handlers t := by
  have onWay : e.OnWay fs name t := Seeks.self.onWay (SearchPath.file_of_findIn? found)
  unfold compilationOf
  rw [Chain.run_ofTemplate_agree (steady.agree kept) onWay]

end Kept

/-- Two engines keep their artifacts in one cache, and have the same handlers. -/
structure Shares (e e' : Engine σ) : Prop where
  cache : e'.cache = e.cache
  registry : e'.registry = e.registry

end Engine

/-! ## Texts that stand for others -/

namespace Asking

theorem text_kept {a : Asking σ} {fs fs' : FileSystem} (kept : a.engine.cache.Kept fs fs')
    (steady : a.engine.Steady fs a.name) : a.text fs' = a.text fs := by
  rw [text_eq, text_eq, steady.find?_kept kept]
  cases found : a.engine.settings.searchPath.find? fs a.name with
  | none => rfl
  | some t =>
    dsimp only
    rw [steady.compilationOf_kept kept found]

/-- What has the same artifact but not the same text shadows it. -/
theorem shadows_of_artifact {a b : Asking σ} {fs : FileSystem} {t t' : Template}
    (registry : a.engine.registry = b.engine.registry) (found : a.engine.settings.searchPath.find? fs a.name = some t)
    (found' : b.engine.settings.searchPath.find? fs b.name = some t')
    (artifact : a.engine.cache.artifact t.file.written = b.engine.cache.artifact t'.file.written)
    (texts : a.text fs ≠ b.text fs) : a.Shadows b fs t t' := by
  refine ⟨found, found', artifact, texts, fun file settings handlers => ?_⟩
  by_contra none
  refine texts ?_
  -- Of the template only the file and what `__parent__` finds matter, and these are the same.
  have lookups : ∀ source target, fs.readAt t'.file = .ok source → b.engine.settings.extends? source = some target →
      Chain.target? b.engine.settings fs (some t) target = Chain.target? b.engine.settings fs (some t') target := by
    intro source target reads extends'
    unfold Chain.target?
    split
    · rename_i sentinel
      by_contra differ
      exact none ⟨source, reads, sentinel ▸ extends', differ⟩
    · rfl
  have chain := Chain.run_ofTemplate_origin file lookups []
  rw [text_of_find? found, text_of_find? found']
  unfold Engine.compilationOf
  rw [settings, handlers, registry, chain]

end Asking

/-! ## What visits leave behind -/

namespace Engine

/-- A session differs from the first one in the folder of the cache alone, and every artifact there is the
text of something that was asked. -/
structure Stocked (e : Engine σ) (s : Session σ) (asked : Asking σ → Prop) (present : Session σ) : Prop where
  ready : e.cache.Ready present.files
  kept : e.cache.Kept s.files present.files
  handlers : e.registry.Pure → present.handlers = s.handlers
  made : ∀ source contents mode modified,
    present.files.file? (e.cache.artifact source) = some (.file contents mode modified) →
    ∃ a t text, asked a ∧ a.engine.settings.searchPath.find? s.files a.name = some t ∧
      e.cache.artifact t.file.written = e.cache.artifact source ∧ contents = .text text ∧ a.text s.files = .ok text

section Stock

variable {e : Engine σ} {s : Session σ} {asked : Asking σ → Prop}

theorem stocked_of_empty (empty : e.cache.Empty s.files) (asked : Asking σ → Prop) : e.Stocked s asked s where
  ready := empty.ready
  kept := .refl ..
  handlers _ := rfl
  made source _ _ _ held := by
    rw [empty.no_artifact source] at held
    cases held

theorem Stocked.atTime {present : Session σ} (stocked : e.Stocked s asked present) (now : Nat) :
    e.Stocked s asked (present.atTime now) where
  ready := ⟨stocked.ready.root, stocked.ready.shards, stocked.ready.artifacts⟩
  kept := ⟨stocked.kept.kind, stocked.kept.file⟩
  handlers := stocked.handlers
  made := stocked.made

variable {e' : Engine σ} (shares : e.Shares e') {name : Text} (steady : e'.Steady s.files name)
include shares steady

/-- **A request stores what its name compiles to**, and changes nothing else outside of the cache. -/
theorem Stocked.requested {present after : Session σ} (stocked : e.Stocked s asked present)
    (own : asked ⟨e', name, present.handlers⟩) (requested : e'.Requested name present after) :
    e.Stocked s asked after := by
  obtain ⟨effect, pure⟩ := requested
  have handlers : e.registry.Pure → after.handlers = s.handlers := fun isPure =>
    (pure (shares.registry ▸ isPure)).trans (stocked.handlers isPure)
  have keeps : e'.cache.Kept s.files present.files := shares.cache ▸ stocked.kept
  generalize files : after.files = fs at effect
  cases effect with
  | none => exact ⟨files ▸ stocked.ready, files ▸ stocked.kept, handlers, files ▸ stocked.made⟩
  | @stored t compilation found compiled =>
    rw [steady.find?_kept keeps] at found
    rw [steady.compilationOf_kept keeps found] at compiled
    rw [shares.cache] at files
    have stores := e.cache.stores_store present.files t.file.written compilation.artifact
    obtain ⟨ok, ready, further⟩ := Cache.store_of_ready stocked.ready t.file.written compilation.artifact
    rw [← files] at ready further stores
    refine ⟨ready, stocked.kept.trans further, handlers, fun source contents mode modified held => ?_⟩
    -- The store succeeds, so the one artifact that changes is the text of the name.
    by_cases same : e.cache.artifact t.file.written = e.cache.artifact source
    · have text : Asking.text ⟨e', name, present.handlers⟩ s.files = .ok compilation.artifact := by
        rw [Asking.text_of_find? found, compiled]
        rfl
      obtain ⟨-, mode', held'⟩ := stores.artifact.resolve_right fun failed => by
        obtain ⟨⟨_, failed⟩, -⟩ := failed
        cases ok.symm.trans failed
      rw [← same, held'] at held
      cases held
      exact ⟨_, t, _, own, found, same, rfl, text⟩
    · rw [stores.frame _ (e.cache.artifact_ne_nil source) (e.cache.temporary_not_prefix_artifact _ _ _)
        (Ne.symm same)] at held
      exact stocked.made source contents mode modified held

omit steady in
/-- What is loaded was made by something asked: by this name, by one with the same text, or by one that shadows it. -/
theorem Stocked.loaded {present : Session σ} (stocked : e.Stocked s asked present)
    (shared : ∀ a, asked a → e.Shares a.engine) (handlers : σ) {t : Template}
    (found : e'.settings.searchPath.find? s.files name = some t) {text : Text}
    (loads : e'.cache.loadAt present.files t.file.written t.file = some text) :
    .ok text = Asking.text ⟨e', name, handlers⟩ s.files ∨
      ∃ a t t', asked a ∧ a.Shadows ⟨e', name, handlers⟩ s.files t t' ∧ .ok text = a.text s.files := by
  rw [shares.cache] at loads
  obtain ⟨mode, modified, held, -⟩ := Cache.file?_of_loadAt loads
  obtain ⟨a, t', text', isAsked, found', artifact, ⟨⟩, made⟩ := stocked.made _ _ _ _ held
  by_cases same : a.text s.files = Asking.text ⟨e', name, handlers⟩ s.files
  · exact .inl (made.symm.trans same)
  · have sharesA := shared a isAsked
    have place : a.engine.cache.artifact t'.file.written = e'.cache.artifact t.file.written := by
      rw [sharesA.cache, shares.cache, artifact]
    have registry : a.engine.registry = e'.registry := sharesA.registry.trans shares.registry.symm
    exact .inr ⟨a, t', t, isAsked, Asking.shadows_of_artifact registry found' found place same, made.symm⟩

/-- **An answer is what the name compiles to**, or the text of something asked that shadows it. -/
theorem Stocked.answer {present : Session σ} (stocked : e.Stocked s asked present)
    (shared : ∀ a, asked a → e.Shares a.engine) :
    ((e'.getCompiled name).run present).1 = Asking.text ⟨e', name, present.handlers⟩ s.files ∨
      ∃ a t t', asked a ∧ a.Shadows ⟨e', name, present.handlers⟩ s.files t t' ∧
        ((e'.getCompiled name).run present).1 = a.text s.files := by
  have keeps : e'.cache.Kept s.files present.files := shares.cache ▸ stocked.kept
  rw [run_getCompiled, steady.find?_kept keeps]
  cases found : e'.settings.searchPath.find? s.files name with
  | none =>
    left
    rw [Asking.text_eq]
    dsimp only
    rw [found]
  | some t =>
    dsimp only
    cases loads : if e'.useCache then e'.cache.loadAt present.files t.file.written t.file else none with
    | none =>
      left
      dsimp only
      rw [steady.compilationOf_kept keeps found, Asking.text_of_find? found]
      dsimp only
      cases e'.compilationOf s.files present.handlers t with
      | error err => rfl
      | ok compilation =>
        dsimp only
        have ready : e'.cache.Ready present.files := shares.cache ▸ stocked.ready
        rw [(Cache.store_of_ready ready t.file.written compilation.artifact).1]
        rfl
    | some text =>
      have fresh : e'.cache.loadAt present.files t.file.written t.file = some text := by
        split at loads
        · exact loads
        · cases loads
      exact stocked.loaded shares shared present.handlers found fresh

end Stock

section Visits

variable {e : Engine σ} {s : Session σ} {visits : List (Visit σ)} (shared : ∀ v ∈ visits, e.Shares v.engine)
include shared

theorem shares_of_mem_asked {a : Asking σ} (mem : a ∈ s.asked visits) : e.Shares a.engine := by
  obtain ⟨v, v_mem, engine, -⟩ := Session.of_mem_asked (fun v mem => (shared v mem).registry) mem
  exact engine ▸ shared v v_mem

/-- **From an empty cache on, visits store nothing but what is asked.** -/
theorem stocked_afterAll (steady : ∀ a ∈ s.asked visits, a.engine.Steady s.files a.name)
    (empty : e.cache.Empty s.files) (now : Nat) :
    e.Stocked s (· ∈ s.asked visits) ((s.afterAll visits).atTime now) := by
  refine ((Session.afterAll_keeps (fun _ now stocked => stocked.atTime now)
    (fun v mem name present after asked requested stocked => ?_) (stocked_of_empty empty _)).1).atTime now
  exact stocked.requested (shared v mem) (steady _ asked) asked requested

end Visits

/-! ## A shared cache -/

/-- **An answer from a shared cache** is what compiling the name comes to at present, or the text of something
asked before that shadows it. -/
theorem getCompiled_of_shared_cache (e : Engine σ) {s : Session σ} (empty : e.cache.Empty s.files)
    (visits : List (Visit σ)) (shared : ∀ v ∈ visits, e.Shares v.engine)
    (steady : ∀ a ∈ s.asked visits, a.engine.Steady s.files a.name) {name : Text} (here : e.Steady s.files name)
    (now : Nat) :
    let present := (s.afterAll visits).atTime now
    ((e.getCompiled name).run present).1 = ((e.compile name).run present).1.map (·.artifact) ∨
      ∃ a t t', a ∈ s.asked visits ∧ a.Shadows ⟨e, name, present.handlers⟩ s.files t t' ∧
        ((e.getCompiled name).run present).1 = a.text s.files := by
  intro present
  have stocked : e.Stocked s (· ∈ s.asked visits) present := stocked_afterAll shared steady empty now
  have text : Asking.text ⟨e, name, present.handlers⟩ s.files = ((e.compile name).run present).1.map (·.artifact) := by
    rw [← Asking.text_eq_compile]
    exact (Asking.text_kept (a := ⟨e, name, present.handlers⟩) stocked.kept here).symm
  rw [← text]
  exact stocked.answer ⟨rfl, rfl⟩ here fun a asked => shares_of_mem_asked shared asked

def stageOf (dirs : List Location) (files : List (Location × Text)) : Session Unit where
  files := { FileSystem.empty with
    entries := dirs.map (·, .directory FileSystem.newDirectoryMode 0) ++
      files.map fun f => (f.1, .file (.text f.2) FileSystem.newFileMode 0) }
  handlers := ()

/-- An engine with no handlers that looks for templates in some directories and keeps their artifacts in another. -/
def engineOn (dirs : List Location) (options : Source.Options) : Engine Unit :=
  { registry := {}, settings := { searchPath := ⟨dirs⟩, options }, cache := ⟨[['c']]⟩ }

theorem pure_engineOn (dirs : List Location) (options : Source.Options) : (engineOn dirs options).registry.Pure :=
  pure_libraryEngine

theorem steady_engineOn {dirs : List Location}
    (beside : ∀ dir ∈ dirs, ¬ dir <+: [['c'], Cache.folder] ∧ ¬ [['c'], Cache.folder] <+: dir)
    (options : Source.Options) (fs : FileSystem) (name : Text) : (engineOn dirs options).Steady fs name :=
  steady_of_beside (e := engineOn dirs options) (fun dir mem => ⟨(beside dir mem).1, (beside dir mem).2⟩) fs name

/-- A directory with one page that prints a value. -/
def pageStage : Session Unit := stageOf [[], [['c']], [['t']]] [([['t'], ['p']], "a\x7b\x7b x \x7d\x7d".toList)]

def pageEngine : Engine Unit := engineOn [[['t']]] {}

/-- Another engine on the same cache, which strips the regions of the rendering language. -/
def strippingEngine : Engine Unit := engineOn [[['t']]] { stripSnippets := true }

theorem empty_pageStage : pageEngine.cache.Empty pageStage.files :=
  Cache.empty_of_entries (by decide +kernel) (by decide +kernel)

/-- The page is asked for without stripping. -/
def unstripped : List (Visit Unit) := [⟨pageEngine, .getCompiled ['p'], 5⟩]

theorem getCompiled_after_unstripped :
    strippingEngine.cache.Empty pageStage.files ∧ (∀ v ∈ unstripped, strippingEngine.Shares v.engine) ∧
      (∀ a ∈ pageStage.asked unstripped, a.engine.Steady pageStage.files a.name) ∧
      strippingEngine.Steady pageStage.files ['p'] ∧
      let present := (pageStage.afterAll unstripped).atTime 6
      (((strippingEngine.getCompiled ['p']).run present).1
          = ((strippingEngine.compile ['p']).run present).1.map (·.artifact) ∨
        ∃ a t t', a ∈ pageStage.asked unstripped ∧
          a.Shadows ⟨strippingEngine, ['p'], present.handlers⟩ pageStage.files t t' ∧
          ((strippingEngine.getCompiled ['p']).run present).1 = a.text pageStage.files) := by
  have shared : ∀ v ∈ unstripped, strippingEngine.Shares v.engine := List.forall_mem_singleton.2 ⟨rfl, rfl⟩
  have steady : ∀ a ∈ pageStage.asked unstripped, a.engine.Steady pageStage.files a.name :=
    List.forall_mem_singleton.2 (steady_engineOn (by decide +kernel) _ _ _)
  have here : strippingEngine.Steady pageStage.files ['p'] := steady_engineOn (by decide +kernel) _ _ _
  exact ⟨empty_pageStage, shared, steady, here,
    getCompiled_of_shared_cache strippingEngine empty_pageStage unstripped shared steady here 6⟩

/-- **Settings leak through the cache**: the engine that strips is answered with a text that is not stripped. -/
theorem answer_of_other_settings :
    pageEngine.cache.Empty pageStage.files ∧ strippingEngine.cache = pageEngine.cache ∧
      strippingEngine.registry = pageEngine.registry ∧
      ((strippingEngine.getCompiled ['p']).run ((pageStage.afterAll unstripped).atTime 6)).1
        = .ok "a\x7b\x7b x \x7d\x7d".toList ∧
      ((strippingEngine.compile ['p']).run ((pageStage.afterAll unstripped).atTime 6)).1.map (·.artifact) = .ok ['a'] :=
  ⟨empty_pageStage, rfl, rfl, by decide +kernel, by decide +kernel⟩

/-! ## One engine -/

/-- **The order of requests does not matter** to an answer, unless something asked before shadows it. -/
theorem getCompiled_of_one_engine (e : Engine σ) (isPure : e.registry.Pure) {s : Session σ}
    (empty : e.cache.Empty s.files) (visits : List (Visit σ)) (own : ∀ v ∈ visits, v.engine = e)
    (steady : ∀ a ∈ s.asked visits, e.Steady s.files a.name) {name : Text} (here : e.Steady s.files name)
    (now : Nat) :
    ((e.getCompiled name).run ((s.afterAll visits).atTime now)).1 = ((e.compile name).run s).1.map (·.artifact) ∨
      ∃ other t t', ⟨e, other, s.handlers⟩ ∈ s.asked visits ∧
        Asking.Shadows ⟨e, other, s.handlers⟩ ⟨e, name, s.handlers⟩ s.files t t' ∧
        ((e.getCompiled name).run ((s.afterAll visits).atTime now)).1 = ((e.compile other).run s).1.map (·.artifact) := by
  have shared : ∀ v ∈ visits, e.Shares v.engine := fun v mem => by
    rw [own v mem]
    exact ⟨rfl, rfl⟩
  have same {a : Asking σ} (mem : a ∈ s.asked visits) : a = ⟨e, a.name, s.handlers⟩ := by
    obtain ⟨v, v_mem, engine, state⟩ := Session.of_mem_asked (fun v mem => congrArg Engine.registry (own v mem)) mem
    rw [← state isPure, ← own v v_mem, ← engine]
  have steadyAll : ∀ a ∈ s.asked visits, a.engine.Steady s.files a.name := fun a mem => by
    rw [same mem]
    exact steady a mem
  have stocked := stocked_afterAll shared steadyAll empty now
  have answer := stocked.answer ⟨rfl, rfl⟩ here fun a asked => shares_of_mem_asked shared asked
  rw [stocked.handlers isPure, Asking.text_eq_compile] at answer
  refine answer.imp_right fun ⟨a, t, t', asked, shadows, eq⟩ => ?_
  have same := same asked
  rw [same] at asked shadows eq
  exact ⟨a.name, t, t', asked, shadows, eq.trans (Asking.text_eq_compile ..)⟩

/-- A directory of templates inside another one: in it a page that extends the one of its name further down, and
below that a page that extends nothing. -/
def nestedStage : Session Unit :=
  stageOf [[], [['c']], [['t']], [['t'], ['s']], [['t'], ['s'], ['s']]]
    [([['t'], ['s'], ['p']], extending parentSentinel), ([['t'], ['s'], ['s'], ['p']], ['x'])]

/-- An engine that looks in the outer one first, then in the inner one. -/
def nestedEngine : Engine Unit := engineOn [[['t']], [['t'], ['s']]] {}

theorem empty_nestedStage : nestedEngine.cache.Empty nestedStage.files :=
  Cache.empty_of_entries (by decide +kernel) (by decide +kernel)

theorem steady_nestedStage (name : Text) : nestedEngine.Steady nestedStage.files name :=
  steady_engineOn (by decide +kernel) _ _ _

/-- The page is asked for from the outer directory. -/
def fromOutside : List (Visit Unit) := [⟨nestedEngine, .getCompiled "s/p".toList, 5⟩]

theorem getCompiled_from_inside :
    nestedEngine.registry.Pure ∧ nestedEngine.cache.Empty nestedStage.files ∧
      (∀ v ∈ fromOutside, v.engine = nestedEngine) ∧
      (∀ a ∈ nestedStage.asked fromOutside, nestedEngine.Steady nestedStage.files a.name) ∧
      nestedEngine.Steady nestedStage.files ['p'] ∧
      (((nestedEngine.getCompiled ['p']).run ((nestedStage.afterAll fromOutside).atTime 6)).1
          = ((nestedEngine.compile ['p']).run nestedStage).1.map (·.artifact) ∨
        ∃ other t t', ⟨nestedEngine, other, ()⟩ ∈ nestedStage.asked fromOutside ∧
          Asking.Shadows ⟨nestedEngine, other, ()⟩ ⟨nestedEngine, ['p'], ()⟩ nestedStage.files t t' ∧
          ((nestedEngine.getCompiled ['p']).run ((nestedStage.afterAll fromOutside).atTime 6)).1
            = ((nestedEngine.compile other).run nestedStage).1.map (·.artifact)) := by
  have own : ∀ v ∈ fromOutside, v.engine = nestedEngine := List.forall_mem_singleton.2 rfl
  have steady : ∀ a ∈ nestedStage.asked fromOutside, nestedEngine.Steady nestedStage.files a.name :=
    fun a _ => steady_nestedStage a.name
  exact ⟨pure_engineOn .., empty_nestedStage, own, steady, steady_nestedStage ['p'],
    getCompiled_of_one_engine nestedEngine (pure_engineOn ..) empty_nestedStage fromOutside own steady
      (steady_nestedStage ['p']) 6⟩

/-- **Order matters where one file goes by two names**: the page has no parent by its inner name, but it is answered
with what it extends by its outer name if that was asked for before. -/
theorem answer_of_other_name :
    nestedEngine.registry.Pure ∧ nestedEngine.cache.Empty nestedStage.files ∧
      ((nestedEngine.getCompiled ['p']).run (nestedStage.atTime 6)).1 = .error (.templateNotFound parentSentinel) ∧
      ((nestedEngine.compile ['p']).run nestedStage).1.map (·.artifact) = .error (.templateNotFound parentSentinel) ∧
      ((nestedEngine.getCompiled ['p']).run ((nestedStage.afterAll fromOutside).atTime 6)).1 = .ok ['x'] :=
  ⟨pure_engineOn .., empty_nestedStage, by decide +kernel, by decide +kernel, by decide +kernel⟩

/-- It is enough that a renderer has asked for the page by its outer name, whatever made it do so. -/
example :
    let asking : Renderer := fun _ _ _ => .load "s/p".toList fun _ => .done []
    let rendered := nestedStage.afterAll [⟨nestedEngine, .render "s/s/p".toList (.record []) asking, 5⟩]
    ((nestedEngine.getCompiled ['p']).run (rendered.atTime 6)).1 = .ok ['x'] := by
  decide +kernel

end Engine

end TagTemplate
