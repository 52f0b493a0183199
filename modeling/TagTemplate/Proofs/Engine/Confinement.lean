/-
# Proofs.Engine.Confinement -- templates never lie outside of the search path

Whatever a name, a target or an include says, the template that is found lies strictly
below a directory of the search path, and no other file is read as one (`Confined`): what
is compiled or rendered is the same whatever lies elsewhere, but for the folder of the
cache, where artifacts are kept.

A name that is empty or absolute or goes up names no template.  Where it is asked for or
extended, that is an error.  A renderer that asks for it is told that there is no such
template, and no template of such a name is ever among those it has read
(`run_load_of_refused`, `lookedUp_play`).  So an include passes it over among others, and an
include of nothing else is an error of rendering unless it is optional.
-/
import TagTemplate.Proofs.Engine.Sight
import TagTemplate.Proofs.Engine.Walk

namespace TagTemplate.Engine

set_option autoImplicit false

open SearchPath (Refused)

variable {σ α β : Type} {e : Engine σ}

/-! ## Refused names -/

theorem run_getCompiled_of_refused {name : Text} (refused : Refused name) (s : Session σ) :
    (e.getCompiled name).run s = (.error (.templateNotFound name), e.lookedUp name s) := by
  unfold getCompiled
  rw [run_request, SearchPath.find?, SearchPath.findIn?_of_refused refused]

theorem run_compiledPath_of_refused {name : Text} (refused : Refused name) (s : Session σ) :
    ((e.compiledPath name).run s).1 = .error (.templateNotFound name) := by
  unfold compiledPath
  rw [run_request, SearchPath.find?, SearchPath.findIn?_of_refused refused]

theorem run_compile_of_refused {name : Text} (refused : Refused name) (s : Session σ) :
    ((e.compile name).run s).1 = .error (.templateNotFound name) := by
  rw [run_compile, SearchPath.find?, SearchPath.findIn?_of_refused refused]

theorem run_render_of_refused {name : Text} (refused : Refused name) (context : Value) (R : Renderer) (s : Session σ) :
    ((e.render name context R).run s).1 = .error (.templateNotFound name) := by
  rw [render, run_bind, run_getCompiled_of_refused refused]

theorem target?_of_refused {name : Text} (refused : Refused name) (s : Settings) (fs : FileSystem)
    (origin : Option Template) : Chain.target? s fs origin name = none := by
  have other : name ≠ parentSentinel := by
    rintro rfl
    exact absurd refused (by decide)
  rw [Chain.target?, if_neg other]
  exact SearchPath.findIn?_of_refused refused fs _

/-! ## What a renderer is told -/

/-- Every template that was read goes by a name that is not refused. -/
def LookedUp (loaded : Loaded) : Prop := ∀ t ∈ loaded, ¬ Refused t.1

theorem LookedUp.read? {loaded : Loaded} (lookedUp : LookedUp loaded) {name : Text} (refused : Refused name) :
    read? loaded name = none := by
  refine Option.map_eq_none_iff.2 (List.find?_eq_none.2 fun p mem same => ?_)
  exact lookedUp p mem ((beq_iff_eq.1 same).symm ▸ refused)

/-- **A template of a refused name does not exist**, and nothing but the log says that it was asked for. -/
theorem run_load_of_refused {name : Text} (refused : Refused name) {loaded : Loaded} (lookedUp : LookedUp loaded)
    (s : Session σ) : (e.load loaded name).run s = (.ok (.missing, loaded), e.lookedUp name s) := by
  rw [run_load, lookedUp.read? refused]
  dsimp only
  rw [run_getCompiled_of_refused refused]
  rfl

theorem lookedUp_keep {loaded : Loaded} (lookedUp : LookedUp loaded) (name : Text) (s : Session σ) :
    LookedUp (keep loaded name (.ofAnswer ((e.getCompiled name).run s).1)) := by
  by_cases refused : Refused name
  · rw [run_getCompiled_of_refused refused]
    exact lookedUp
  · generalize Loading.ofAnswer ((e.getCompiled name).run s).1 = answer
    cases answer with
    | found compiled => exact List.forall_mem_cons.2 ⟨refused, lookedUp⟩
    | missing | failed => exact lookedUp

/-- **No script reads a template of a refused name.** -/
theorem lookedUp_play {loaded : Loaded} (lookedUp : LookedUp loaded) (script : Script α) {s s' : Session σ} {a : α}
    {loaded' : Loaded} (plays : (e.play loaded script).run s = (.ok (a, loaded'), s')) : LookedUp loaded' := by
  induction script generalizing loaded s with
  | done b =>
    cases plays
    exact lookedUp
  | fails => cases plays
  | load name next ih =>
    rw [play_load, run_bind, run_load] at plays
    cases known : read? loaded name with
    | some compiled =>
      rw [known] at plays
      exact ih _ lookedUp plays
    | none =>
      rw [known] at plays
      exact ih _ (lookedUp_keep lookedUp name s) plays

/-! ## Includes -/

/-- There is something to include, and all of it goes by refused names. -/
def AllRefused (names : List (Option Text)) : Prop := names ≠ [] ∧ ∀ n ∈ names, ∃ name, n = some name ∧ Refused name

def lookedUpAll (e : Engine σ) (names : List (Option Text)) (s : Session σ) : Session σ :=
  names.foldl (fun s n => n.elim s fun name => e.lookedUp name s) s

theorem run_first?_of_refused {name : Text} (refused : Refused name) {loaded : Loaded} (lookedUp : LookedUp loaded)
    (names : List (Option Text)) (s : Session σ) :
    (e.play loaded (Script.first? (some name :: names))).run s
      = (e.play loaded (Script.first? names)).run (e.lookedUp name s) := by
  rw [Script.first?, play_load, run_bind, run_load_of_refused refused lookedUp]

theorem run_first?_of_allRefused {loaded : Loaded} (lookedUp : LookedUp loaded) (names : List (Option Text))
    (refused : ∀ n ∈ names, ∃ name, n = some name ∧ Refused name) (s : Session σ) :
    (e.play loaded (Script.first? names)).run s = (.ok (none, loaded), e.lookedUpAll names s) := by
  induction names generalizing s with
  | nil => rfl
  | cons n names ih =>
    obtain ⟨name, rfl, here⟩ := refused n (List.mem_cons_self ..)
    rw [run_first?_of_refused here lookedUp, ih fun n mem => refused n (List.mem_cons_of_mem _ mem)]
    rfl

/-- **An include of refused names alone** prints nothing if it is optional, and otherwise is an error. -/
theorem run_includes_of_refused {loaded : Loaded} (lookedUp : LookedUp loaded) {names : List (Option Text)}
    (refused : AllRefused names) (optional : Bool) (put : Text → Text → Script Text) (s : Session σ) :
    (e.play loaded (Script.includes optional names put)).run s
      = (if optional then .ok ([], loaded) else .error .render, e.lookedUpAll names s) := by
  have nonempty : names.isEmpty = false := by simp [refused.1]
  rw [Script.includes, play_bind, run_bind, run_first?_of_allRefused lookedUp names refused.2]
  dsimp only
  rw [nonempty]
  cases optional <;> rfl

/-! ## Confinement -/

/-- The files that were read up to a stage of a walk, and the one that was found last. -/
def filesFound : Chain.Stage → List Location
  | .seeking files _ next => files ++ (next.map (·.file)).toList
  | .holding files _ _ => files

/-- A location lies strictly below a directory of a search path. -/
def Below (sp : SearchPath) (l : Location) : Prop := ∃ dir ∈ sp.dirs, dir <+: l ∧ l ≠ dir

theorem below_of_within {sp : SearchPath} {t : Template} (within : SearchPath.Within sp.dirs t) : Below sp t.file :=
  ⟨t.dir, within.dir, within.below, within.strict⟩

theorem within_of_target? {s : Settings} {fs : FileSystem} {origin : Option Template} {target : Text} {t : Template}
    (found : Chain.target? s fs origin target = some t) : SearchPath.Within s.searchPath.dirs t := by
  unfold Chain.target? at found
  split at found
  · obtain ⟨_, _, found⟩ := Option.bind_eq_some_iff.1 found
    exact SearchPath.within_of_findAfter? found
  · exact SearchPath.within_of_findIn? found

/-- A step finds templates below the search path only. -/
theorem below_step {s : Settings} {fs : FileSystem} {a b : Chain.Stage} (step : Chain.Step s fs a b)
    (below : ∀ file ∈ filesFound a, Below s.searchPath file) : ∀ file ∈ filesFound b, Below s.searchPath file := by
  cases step with
  | @look files origin _ target _ =>
    intro file mem
    rcases List.mem_append.1 mem with mem | mem
    · exact below file mem
    · obtain ⟨t, looked, rfl⟩ := Option.map_eq_some_iff.1 (Option.mem_toList.1 mem)
      exact below_of_within (within_of_target? looked)
  | read _ _ => exact below

theorem below_of_reaches {s : Settings} {fs : FileSystem} {start a : Chain.Stage} (reaches : Chain.Reaches s fs start a)
    (below : ∀ file ∈ filesFound start, Below s.searchPath file) : ∀ file ∈ filesFound a, Below s.searchPath file := by
  induction reaches with
  | refl => exact below
  | tail _ step ih => exact below_step step ih

/-- What is asked of an engine stays within its search path. -/
structure Confined (e : Engine σ) : Prop where
  /-- A lookup, in all directories or in those after one, finds a template strictly below one of them. -/
  lookup : ∀ fs name t, (e.settings.searchPath.find? fs name = some t ∨
    ∃ dir, e.settings.searchPath.findAfter? fs dir name = some t) → SearchPath.Within e.settings.searchPath.dirs t
  /-- So is every file that is found along a chain, from a name or from a text in memory. -/
  chain : ∀ fs name source a, (Chain.Reaches e.settings fs (.seeking [] name (e.settings.searchPath.find? fs name)) a ∨
    Chain.Reaches e.settings fs (.holding [] none source) a) → ∀ file ∈ filesFound a, Below e.settings.searchPath file
  /-- Compiling is the same whatever lies elsewhere. -/
  compiling : ∀ P : Location → Prop, (∀ dir ∈ e.settings.searchPath.dirs, ∀ l, dir <+: l → P l) → ∀ name source,
    Heeds P (e.compile name) (fun _ => True) ∧ Heeds P (e.compileSource source) fun _ => True
  /-- So are requests and renderings by any renderer, but for the cache, whatever is included. -/
  serving : ∀ name source context R, Heeds e.Sees (e.getCompiled name) (fun _ => True) ∧
    Heeds e.Sees (e.compiledPath name) (fun _ => True) ∧ Heeds e.Sees (e.render name context R) (fun _ => True) ∧
    Heeds e.Sees (e.renderSource source context R) fun _ => True
  /-- A refused name is in no directory. -/
  refusal : ∀ name, Refused name → ∀ fs, e.settings.searchPath.find? fs name = none ∧
    ∀ dir, e.settings.searchPath.findAfter? fs dir name = none
  /-- It is not found, whatever is asked of it. -/
  names : ∀ name, Refused name → ∀ (s : Session σ) context R,
    ((e.compile name).run s).1 = .error (.templateNotFound name) ∧
      ((e.getCompiled name).run s).1 = .error (.templateNotFound name) ∧
      ((e.compiledPath name).run s).1 = .error (.templateNotFound name) ∧
      ((e.render name context R).run s).1 = .error (.templateNotFound name)
  /-- A chain that comes to a file which extends a refused name ends there. -/
  targets : ∀ target, Refused target → ∀ (s : Session σ) files origin text, e.settings.parent? text = some target →
    (∀ name, Chain.Reaches e.settings s.files (.seeking [] name (e.settings.searchPath.find? s.files name))
        (.holding files origin text) → ((e.compile name).run s).1 = .error (.templateNotFound target)) ∧
      ∀ source, Chain.Reaches e.settings s.files (.holding [] none source) (.holding files origin text) →
        ((e.compileSource source).run s).1 = .error (.templateNotFound target)
  /-- A renderer that asks for a refused name is told that there is no such template, and it never comes to have
  read one.  The only errors it ends with are those of rendering. -/
  loading : ∀ loaded, LookedUp loaded →
    (∀ name, Refused name → ∀ s : Session σ, (e.load loaded name).run s = (.ok (.missing, loaded), e.lookedUp name s)) ∧
    ∀ (script : Script Text) (s : Session σ),
      match ((e.play loaded script).run s).1 with
      | .ok (_, loaded') => LookedUp loaded'
      | .error err => err = .render
  /-- Among several names that are included, a refused one is passed over. -/
  choices : ∀ loaded, LookedUp loaded → ∀ name, Refused name → ∀ names (s : Session σ),
    (e.play loaded (Script.first? (some name :: names))).run s
      = (e.play loaded (Script.first? names)).run (e.lookedUp name s)
  /-- Whatever a rendering does before, an include of refused names alone ends it with an error, unless the include
  is optional and prints nothing. -/
  includes : ∀ loaded, LookedUp loaded → ∀ (before : Script Text) (names : Text → List (Option Text)) (optional : Bool)
    (put : Text → Text → Script Text) (after : Text → Text → Script Text) (s s' : Session σ) text loaded',
    (e.play loaded before).run s = (.ok (text, loaded'), s') → AllRefused (names text) →
      (e.play loaded (before >>= fun text => Script.includes optional (names text) put >>= after text)).run s
        = if optional then (e.play loaded' (after text [])).run (e.lookedUpAll (names text) s')
          else (.error .render, e.lookedUpAll (names text) s')

theorem run_of_reaches_refused {s : Settings} {fs : FileSystem} {start : Chain.Stage} {result : Except Error Unit}
    (decides : Chain.Decides s fs start result) {target : Text} (refused : Refused target) {files : List Location}
    {origin : Option Template} {text : Text} (names : s.parent? text = some target)
    (reaches : Chain.Reaches s fs start (.holding files origin text)) : result = .error (.templateNotFound target) := by
  refine (decides.verdict _).2 ⟨_, reaches.tail (.look names), ?_⟩
  rw [target?_of_refused refused]
  exact .missing

/-- **Templates never lie outside of the search path**, for every engine. -/
theorem confined (e : Engine σ) : e.Confined where
  lookup fs name t looked := by
    rcases looked with looked | ⟨dir, looked⟩
    · exact SearchPath.within_of_findIn? looked
    · exact SearchPath.within_of_findAfter? looked
  chain fs name source a reaches := by
    rcases reaches with reaches | reaches
    · refine below_of_reaches reaches fun file mem => ?_
      obtain ⟨t, looked, rfl⟩ := Option.map_eq_some_iff.1 (Option.mem_toList.1 mem)
      exact below_of_within (SearchPath.within_of_findIn? looked)
    · exact below_of_reaches reaches nofun
  compiling P below name source := ⟨heeds_compile below name, heeds_compileSource below source⟩
  serving name source context R :=
    ⟨heeds_getCompiled e name, heeds_compiledPath e name, heeds_render R e name context, heeds_renderSource R e source context⟩
  refusal name refused fs :=
    ⟨SearchPath.findIn?_of_refused refused fs _, SearchPath.findAfter?_of_refused refused _ fs⟩
  names name refused s context R :=
    ⟨run_compile_of_refused refused s, congrArg Prod.fst (run_getCompiled_of_refused refused s),
      run_compiledPath_of_refused refused s, run_render_of_refused refused context R s⟩
  targets target refused s files origin text names :=
    ⟨fun name reaches => eq_error_of_map (run_of_reaches_refused (e.decides_compile name s) refused names reaches),
      fun source reaches =>
        eq_error_of_map (run_of_reaches_refused (e.decides_compileSource source s) refused names reaches)⟩
  loading loaded lookedUp := by
    refine ⟨fun name refused => run_load_of_refused refused lookedUp, fun script s => ?_⟩
    rcases run : (e.play loaded script).run s with ⟨err | ⟨text, loaded'⟩, s'⟩
    · exact e.play_error run
    · exact lookedUp_play lookedUp script run
  choices loaded lookedUp name refused names s := run_first?_of_refused refused lookedUp names s
  includes loaded lookedUp before names optional put after s s' text loaded' plays refused := by
    have included := run_includes_of_refused (e := e) (lookedUp_play lookedUp before plays) refused optional put s'
    rw [play_bind, run_bind, plays]
    dsimp only
    rw [play_bind, run_bind, included]
    cases optional <;> rfl

/-- A text that includes a template outside of the search path, with some more words. -/
def straying (words : Text) : Text := "a\x7b% include \"../x\" ".toList ++ words ++ "%\x7db".toList

def rendered (text : Text) : Option Text :=
  ((libraryEngine.renderSource text (.record [])).run circle).1.toOption

/-- **An optional include of a refused name is no error.**  Any other one is. -/
theorem optional_include_renders : Refused "../x".toList ∧ rendered (straying "ignore missing ".toList) = some "ab".toList ∧
    rendered (straying []) = none := by
  decide +kernel

end TagTemplate.Engine
