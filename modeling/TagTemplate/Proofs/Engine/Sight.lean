/-
# Proofs.Engine.Sight -- what an engine can see

An action heeds some locations if sessions whose files agree there make no difference
to it: it comes to the same in both, and they agree there afterwards as well (`Heeds`).
Nothing else is read by it, since a file that is read may hold no text, and that is an
error.

Compiling heeds what lies below the directories of the search path.  The requests that
use the cache heed its folder too, and the directories above that (`Sees`).  So does a
whole rendering, whatever its renderer is: it reads nothing but what it asks the loader
for, and each of these is a request of its own (`heeds_play`).
-/
import TagTemplate.Proofs.Chain.Outcome
import TagTemplate.Proofs.Engine.Play
import TagTemplate.Proofs.FileSystem.Agreement

namespace TagTemplate

set_option autoImplicit false

variable {σ α β : Type}

/-! ## Caches -/

namespace Cache

open FileSystem

/-- **Storing reads no more than the folder of the cache and what is above it.** -/
theorem agreeOn_store {P : Location → Prop} {fs fs' : FileSystem} (agree : fs.AgreeOn P fs') (c : Cache)
    (above : ∀ l, l <+: c.root ++ [folder] → P l) (inside : ∀ l, c.root ++ [folder] <+: l → P l)
    (source contents : Text) :
    (c.store fs source contents).1.AgreeOn P (c.store fs' source contents).1 ∧
      (c.store fs' source contents).2 = (c.store fs source contents).2 := by
  have parts (l : Location) (below : l <+: c.shard source) : P l :=
    (List.prefix_or_prefix_of_prefix below (c.folder_prefix_shard source)).elim (above l) (inside l)
  have shard := inside _ (c.folder_prefix_shard source)
  have artifact := inside _ (c.folder_prefix_artifact source)
  have temporary := inside _ (c.folder_prefix_temporary fs source)
  have artifactParent : P (c.artifact source).dropLast := by simpa [Cache.artifact] using shard
  have temporaryParent : P (c.temporary fs source).dropLast := by simpa [Cache.temporary] using shard
  have same : c.temporary fs' source = c.temporary fs source := by simp only [Cache.temporary, agree.now]
  unfold store
  dsimp only
  rw [same]
  have makes : Alike P (fs.makeBelow [] (c.shard source)) (fs'.makeBelow [] (c.shard source)) :=
    agree.makeBelow (c.shard source) parts
  generalize fs.makeBelow [] (c.shard source) = made at makes ⊢
  generalize fs'.makeBelow [] (c.shard source) = made' at makes ⊢
  cases makes with
  | error e => exact ⟨agree, rfl⟩
  | @ok made made' agree =>
    have writes := agree.writeAt temporary temporaryParent (.text contents)
    simp only [writeOn, setModeOn, moveOn, removeOn, Device.take, if_true]
    generalize made.writeAt (c.temporary fs source) (.text contents) = written at writes ⊢
    generalize made'.writeAt (c.temporary fs source) (.text contents) = written' at writes ⊢
    cases writes with
    | error e => exact ⟨agree, rfl⟩
    | @ok written written' agree =>
      have mode : artifactMode written' (c.shard source) = artifactMode written (c.shard source) := by
        simp only [artifactMode, agree.entry _ shard]
      dsimp only
      rw [mode]
      have agree := agree.setMode temporary (artifactMode written (c.shard source))
      generalize written.setMode (c.temporary fs source) _ = before at agree ⊢
      generalize written'.setMode (c.temporary fs source) _ = before' at agree ⊢
      have moves := agree.move temporary temporaryParent artifact artifactParent
      generalize before.move (c.temporary fs source) (c.artifact source) = moved at moves ⊢
      generalize before'.move (c.temporary fs source) (c.artifact source) = moved' at moves ⊢
      cases moves with
      | error e => exact ⟨agree.remove temporaryParent, rfl⟩
      | ok agree => exact ⟨agree, rfl⟩

theorem agreeOn_loadAt {P : Location → Prop} {fs fs' : FileSystem} (agree : fs.AgreeOn P fs') (c : Cache)
    (inside : ∀ l, c.root ++ [folder] <+: l → P l) (source : Text) {file : Location} (seen : P file) :
    c.loadAt fs' source file = c.loadAt fs source file := by
  have artifact := inside _ (c.folder_prefix_artifact source)
  simp only [loadAt, agree.isFreshAt artifact seen, agree.readAt artifact]

end Cache

/-! ## Chains -/

namespace Chain

variable {s : Settings} {fs fs' : FileSystem}

/-- File systems that agree below the search path agree on all templates. -/
theorem agree_of_agreeOn {P : Location → Prop} (agree : fs.AgreeOn P fs')
    (below : ∀ dir ∈ s.searchPath.dirs, ∀ l, dir <+: l → P l) :
    Agree s fs fs' fun t => t.dir ∈ s.searchPath.dirs ∧ t.dir <+: t.file where
  texts _ within := agree.readAt (below _ within.1 _ within.2)
  lookups t _ target _ _ _ :=
    ⟨target?_congr (fun dir mem => agree.sameBelow (below dir mem)) (some t) target, fun _ found => of_target? found⟩

end Chain

/-! ## Actions -/

/-- The files of two sessions agree on some locations, and the handlers are in the same state. -/
structure Session.AgreeOn (P : Location → Prop) (s s' : Session σ) : Prop where
  files : s.files.AgreeOn P s'.files
  handlers : s'.handlers = s.handlers

theorem Session.AgreeOn.refl (P : Location → Prop) (s : Session σ) : s.AgreeOn P s := ⟨.refl P s.files, rfl⟩

/-- An action heeds some locations only, and comes to something of some kind. -/
def Heeds (P : Location → Prop) (act : Action σ α) (comesTo : Except Error α → Prop) : Prop :=
  ∀ s s' : Session σ, s.AgreeOn P s' →
    (act.run s').1 = (act.run s).1 ∧ (act.run s).2.AgreeOn P (act.run s').2 ∧ comesTo (act.run s).1

variable {P : Location → Prop}

theorem heeds_pure {a : α} {comesTo : Except Error α → Prop} (holds : comesTo (.ok a)) :
    Heeds P (pure a : Action σ α) comesTo :=
  fun _ _ agree => ⟨rfl, agree, holds⟩

theorem heeds_throw {err : Error} {comesTo : Except Error α → Prop} (holds : comesTo (.error err)) :
    Heeds P (throw err : Action σ α) comesTo :=
  fun _ _ agree => ⟨rfl, agree, holds⟩

theorem heeds_note (e : Event) : Heeds P (Action.note e : Action σ Unit) fun _ => True :=
  fun _ _ agree => ⟨rfl, ⟨agree.files, agree.handlers⟩, trivial⟩

theorem Heeds.bind {act : Action σ α} {between : Except Error α → Prop} (first : Heeds P act between)
    {next : α → Action σ β} {comesTo : Except Error β → Prop} (then' : ∀ a, between (.ok a) → Heeds P (next a) comesTo)
    (fails : ∀ err, between (.error err) → comesTo (.error err)) : Heeds P (act >>= next) comesTo := by
  intro s s' agree
  obtain ⟨same, after, holds⟩ := first s s' agree
  rw [run_bind, run_bind]
  rcases run : act.run s with ⟨result, t⟩
  rcases run' : act.run s' with ⟨result', t'⟩
  rw [run, run'] at same after
  rw [run] at holds
  cases same
  cases result with
  | ok a => exact then' a holds t t' after
  | error err => exact ⟨rfl, after, fails err holds⟩

theorem Heeds.map {act : Action σ α} {between : Except Error α → Prop} (first : Heeds P act between) {f : α → β}
    {comesTo : Except Error β → Prop} (image : ∀ r, between r → comesTo (r.map f)) : Heeds P (f <$> act) comesTo := by
  rw [map_eq_pure_bind]
  exact first.bind (fun a holds => heeds_pure (image _ holds)) fun _ holds => image _ holds

theorem Heeds.tryCatch {act : Action σ α} {between : Except Error α → Prop} (first : Heeds P act between)
    {handle : Error → Action σ α} {comesTo : Except Error α → Prop} (fine : ∀ a, between (.ok a) → comesTo (.ok a))
    (handled : ∀ err, between (.error err) → Heeds P (handle err) comesTo) : Heeds P (tryCatch act handle) comesTo := by
  intro s s' agree
  obtain ⟨same, after, holds⟩ := first s s' agree
  rw [run_tryCatch, run_tryCatch]
  rcases run : act.run s with ⟨result, t⟩
  rcases run' : act.run s' with ⟨result', t'⟩
  rw [run, run'] at same after
  rw [run] at holds
  cases same
  cases result with
  | ok a => exact ⟨rfl, after, fine a holds⟩
  | error err => exact handled err holds t t' after

/-- What is done next is the same where sessions agree. -/
theorem heeds_get {next : Session σ → Action σ β} {comesTo : Except Error β → Prop}
    (alike : ∀ s s' : Session σ, s.AgreeOn P s' → next s' = next s) (then' : ∀ s, Heeds P (next s) comesTo) :
    Heeds P (get >>= next) comesTo := by
  intro s s' agree
  have read (s : Session σ) : (get >>= next).run s = (next s).run s := by
    rw [run_bind]
    rfl
  rw [read, read, alike s s' agree]
  exact then' s s s' agree

theorem heeds_ofLogged {f : FileSystem → Logged α}
    (alike : ∀ fs fs', fs.AgreeOn P fs' → ((f fs').run []).1 = ((f fs).run []).1) :
    Heeds P (Action.ofLogged f : Action σ α) fun _ => True :=
  fun s s' agree => ⟨alike s.files s'.files agree.files, ⟨agree.files, agree.handlers⟩, trivial⟩

/-- Replacing an artifact heeds the folder of the cache and what is above it. -/
theorem heeds_replace (c : Cache) (above : ∀ l, l <+: c.root ++ [Cache.folder] → P l)
    (inside : ∀ l, c.root ++ [Cache.folder] <+: l → P l) (source contents : Text) :
    Heeds P (c.replace source contents : Action σ Location) fun _ => True := by
  intro s s' agree
  obtain ⟨files, handlers, result⟩ := Engine.run_replace c source contents s
  obtain ⟨files', handlers', result'⟩ := Engine.run_replace c source contents s'
  obtain ⟨stored, same⟩ := Cache.agreeOn_store agree.files c above inside source contents
  refine ⟨?_, ⟨?_, ?_⟩, trivial⟩
  · rw [result, result', same]
  · rw [files, files']
    exact stored
  · rw [handlers, handlers', agree.handlers]

namespace Engine

variable {e : Engine σ}

/-! ## Compiling -/

section Compiling

variable (below : ∀ dir ∈ e.settings.searchPath.dirs, ∀ l, dir <+: l → P l)

include below

theorem find?_agreeOn {fs fs' : FileSystem} (agree : fs.AgreeOn P fs') (name : Text) :
    e.settings.searchPath.find? fs' name = e.settings.searchPath.find? fs name :=
  SearchPath.find?_congr (fun dir mem => agree.sameBelow (below dir mem)) name

theorem heeds_find (name : Text) :
    Heeds P (e.find name) fun r => ∀ t, r = .ok t → t.dir ∈ e.settings.searchPath.dirs ∧ t.dir <+: t.file := by
  intro s s' agree
  rw [run_find, run_find, find?_agreeOn below agree.files]
  refine ⟨rfl, ⟨agree.files, agree.handlers⟩, fun t eq => ?_⟩
  cases found : e.settings.searchPath.find? s.files name with
  | none => rw [found] at eq; cases eq
  | some t' =>
    rw [found] at eq
    cases eq
    exact (SearchPath.of_findIn? found).imp_right And.left

omit below in
theorem heeds_compileChain (chain : Chain) : Heeds P (e.compileChain chain) fun _ => True := by
  intro s s' agree
  have after (s : Session σ) : ((e.compileChain chain).run s).2.handlers
      = ((Compiler.compile ⟨chain.tree, e.registry⟩ chain.root).run (chain.initial s.handlers)).2.handlers := rfl
  refine ⟨?_, ⟨agree.files, ?_⟩, trivial⟩
  · rw [run_compileChain, run_compileChain, agree.handlers]
  · rw [after, after, agree.handlers]

theorem heeds_compileTemplate {t : Template} (within : t.dir ∈ e.settings.searchPath.dirs ∧ t.dir <+: t.file) :
    Heeds P (e.compileTemplate t) fun _ => True :=
  (heeds_ofLogged fun _ _ agree => Chain.run_ofTemplate_agree (Chain.agree_of_agreeOn agree below) within []).bind
    (fun chain _ => heeds_compileChain chain) fun _ _ => trivial

theorem heeds_compile (name : Text) : Heeds P (e.compile name) fun _ => True :=
  (heeds_find below name).bind (fun t found => heeds_compileTemplate below (found t rfl)) fun _ _ => trivial

theorem heeds_compileSource (source : Text) : Heeds P (e.compileSource source) fun _ => True := by
  refine (heeds_ofLogged fun fs fs' agree => ?_).bind (fun chain _ => heeds_compileChain chain) fun _ _ => trivial
  refine Chain.run_ofSource_agree (Chain.agree_of_agreeOn agree below) (fun target _ => ⟨?_, ?_⟩) []
  · exact Chain.target?_congr (fun dir mem => agree.sameBelow (below dir mem)) none target
  · exact fun _ found => Chain.of_target? found

end Compiling

/-! ## Requests that use the cache -/

/-- What lies below the search path or in the folder of the cache, or is above that. -/
def Sees (e : Engine σ) (l : Location) : Prop :=
  (∃ dir ∈ e.settings.searchPath.dirs, dir <+: l) ∨ l <+: e.cache.root ++ [Cache.folder] ∨
    e.cache.root ++ [Cache.folder] <+: l

theorem sees_below : ∀ dir ∈ e.settings.searchPath.dirs, ∀ l, dir <+: l → e.Sees l :=
  fun dir mem _ below => .inl ⟨dir, mem, below⟩

theorem heeds_store (source contents : Text) :
    Heeds e.Sees (e.cache.replace source contents : Action σ Location) fun _ => True :=
  heeds_replace e.cache (fun _ above => .inr (.inl above)) (fun _ inside => .inr (.inr inside)) source contents

/-- **A request for the text of a name** heeds the search path and the cache. -/
theorem heeds_getCompiled (e : Engine σ) (name : Text) :
    Heeds e.Sees (e.getCompiled name) fun _ => True := by
  refine (heeds_find sees_below name).bind (fun t found => ?_) fun _ _ => trivial
  have within := found t rfl
  refine heeds_get (fun s s' agree => ?_) fun s => ?_
  · simp only [Cache.agreeOn_loadAt agree.files e.cache (fun _ inside => .inr (.inr inside)) _
      (sees_below _ within.1 _ within.2)]
  · dsimp only
    split
    · exact (heeds_note _).bind (fun _ _ => heeds_pure trivial) fun _ _ => trivial
    · refine (heeds_compileTemplate sees_below within).bind (fun compilation _ => ?_) fun _ _ => trivial
      exact (heeds_store _ _).bind (fun _ _ => heeds_pure trivial) fun _ _ => trivial

/-- **A request for the artifact of a name** heeds the search path and the cache. -/
theorem heeds_compiledPath (e : Engine σ) (name : Text) : Heeds e.Sees (e.compiledPath name) fun _ => True := by
  refine (heeds_find sees_below name).bind (fun t found => ?_) fun _ _ => trivial
  have within := found t rfl
  refine heeds_get (fun s s' agree => ?_) fun s => ?_
  · simp only [agree.files.isFreshAt (P := e.Sees) (.inr (.inr (e.cache.folder_prefix_artifact _)))
      (sees_below _ within.1 _ within.2)]
  · dsimp only
    split
    · exact (heeds_note _).bind (fun _ _ => heeds_pure trivial) fun _ _ => trivial
    · exact (heeds_compileTemplate sees_below within).bind (fun compilation _ => heeds_store _ _) fun _ _ => trivial

/-! ## Rendering -/

theorem heeds_answer (e : Engine σ) (name : Text) : Heeds e.Sees (e.answer name) fun r => ∃ answer, r = .ok answer := by
  have compiled : Heeds e.Sees (Loading.found <$> e.getCompiled name) fun _ => True :=
    (heeds_getCompiled e name).map fun _ _ => trivial
  refine compiled.tryCatch (fun answer _ => ⟨answer, rfl⟩) fun err _ => ?_
  split <;> exact heeds_pure ⟨_, rfl⟩

theorem heeds_load (e : Engine σ) (loaded : Loaded) (name : Text) :
    Heeds e.Sees (e.load loaded name) fun r => ∃ answer, r = .ok answer := by
  unfold load
  split
  · exact heeds_pure ⟨_, rfl⟩
  · refine (heeds_answer e name).bind (fun answer _ => ?_) nofun
    split <;> exact heeds_pure ⟨_, rfl⟩

/-- **A script heeds the search path and the cache**, whatever it asks for. -/
theorem heeds_play (e : Engine σ) (loaded : Loaded) (script : Script α) :
    Heeds e.Sees (e.play loaded script) fun _ => True := by
  induction script generalizing loaded with
  | done a => exact heeds_pure trivial
  | fails => exact heeds_throw trivial
  | load name next ih => exact (heeds_load e loaded name).bind (fun r _ => ih r.1 r.2) fun _ _ => trivial

variable (R : Renderer)

theorem heeds_renderCompiled (e : Engine σ) (name compiled : Text) (context : Value) :
    Heeds e.Sees (e.renderCompiled name compiled context R) fun _ => True :=
  (heeds_play e _ _).map fun _ _ => trivial

/-- **Rendering a template** heeds the search path and the cache. -/
theorem heeds_render (e : Engine σ) (name : Text) (context : Value) :
    Heeds e.Sees (e.render name context R) fun _ => True :=
  (heeds_getCompiled e name).bind (fun compiled _ => heeds_renderCompiled R e name compiled context) fun _ _ => trivial

/-- **Rendering a text in memory** heeds the search path and the cache. -/
theorem heeds_renderSource (e : Engine σ) (source : Text) (context : Value) :
    Heeds e.Sees (e.renderSource source context R) fun _ => True :=
  (heeds_compileSource sees_below source).bind
    (fun compilation _ => heeds_renderCompiled R e sourceName compilation.artifact context) fun _ _ => trivial

end Engine

end TagTemplate
