/-
# Proofs.Engine.Render -- rendering without names

Where there are no other templates, a script finds the text that is rendered, under the
name it goes by, and nothing else.  Two scripts are alike if they cannot be told apart there
(`Alike`).

If a text is read into literal text and includes of constant names, no piece of it looks at
the memory, and every piece is printed alike from any two memories.  So is every include,
down to the depth where includes end (`alike_put`).  So the text is rendered the same in
every context (`renderCompiled_of_within`).
-/
import TagTemplate.Proofs.Engine.Play
import TagTemplate.Proofs.Rendering.Language

namespace TagTemplate

set_option autoImplicit false

variable {σ α β : Type}

namespace Engine

variable {e : Engine σ} (alone : e.settings.searchPath.dirs = [])

/-! ## Two scripts -/

/-- Two scripts do the same among the templates that were read, and read no other one. -/
def Alike (e : Engine σ) (loaded : Loaded) (x x' : Script α) : Prop :=
  ∀ s, (e.play loaded x').run s = (e.play loaded x).run s ∧
    ∀ r s', (e.play loaded x).run s = (.ok r, s') → r.2 = loaded

variable {loaded : Loaded}

theorem alike_done (a : α) : Alike e loaded (.done a) (.done a) := by
  intro s
  refine ⟨rfl, fun r s' eq => ?_⟩
  cases eq
  rfl

theorem alike_fails : Alike e loaded (.fails : Script α) .fails := by
  intro s
  refine ⟨rfl, fun r s' eq => ?_⟩
  cases eq

theorem Alike.bind {x x' : Script α} {f f' : α → Script β} (alike : Alike e loaded x x')
    (alike' : ∀ a, Alike e loaded (f a) (f' a)) : Alike e loaded (x >>= f) (x' >>= f') := by
  intro s
  obtain ⟨same, kept⟩ := alike s
  rw [play_bind, play_bind, run_bind, run_bind, same]
  rcases run : (e.play loaded x).run s with ⟨err | ⟨a, loaded'⟩, s'⟩
  · refine ⟨rfl, fun r s'' eq => ?_⟩
    cases eq
  · obtain rfl : loaded' = loaded := kept _ _ run
    exact alike' a s'

theorem Alike.map {x x' : Script α} (alike : Alike e loaded x x') (f : α → β) :
    Alike e loaded (f <$> x) (f <$> x') := by
  rw [map_eq_pure_bind, map_eq_pure_bind]
  exact alike.bind fun a => alike_done (f a)

section Load

include alone

theorem find?_of_alone (fs : FileSystem) (name : Text) : e.settings.searchPath.find? fs name = none := by
  rw [SearchPath.find?, alone, SearchPath.findIn?]
  split <;> rfl

/-- A template that was not read before does not exist. -/
theorem run_load_of_alone (loaded : Loaded) (name : Text) (s : Session σ) :
    ∃ s', (e.load loaded name).run s =
      (.ok ((match read? loaded name with
        | some compiled => .found compiled
        | none => .missing), loaded), s') := by
  rw [run_load]
  cases read? loaded name with
  | some compiled => exact ⟨s, rfl⟩
  | none =>
    have compiled : (e.getCompiled name).run s = (.error (.templateNotFound name), e.lookedUp name s) := by
      rw [getCompiled, run_request, find?_of_alone alone]
    rw [compiled]
    exact ⟨e.lookedUp name s, rfl⟩

theorem alike_load {name : Text} {next next' : Loading → Script α}
    (found : ∀ compiled, (name, compiled) ∈ loaded → Alike e loaded (next (.found compiled)) (next' (.found compiled)))
    (missing : Alike e loaded (next .missing) (next' .missing)) :
    Alike e loaded (.load name next) (.load name next') := by
  intro s
  obtain ⟨s', read⟩ := run_load_of_alone alone loaded name s
  rw [play_load, play_load, run_bind, run_bind, read]
  cases known : read? loaded name with
  | none => exact missing s'
  | some compiled =>
    obtain ⟨⟨name', _⟩, first, rfl⟩ := Option.map_eq_some_iff.1 known
    obtain rfl : name' = name := by simpa using List.find?_some first
    exact found _ (List.mem_of_find?_eq_some first) s'

theorem alike_includes {optional : Bool} {name : Text} {put put' : Text → Text → Script Text}
    (alike : ∀ compiled, (name, compiled) ∈ loaded → Alike e loaded (put name compiled) (put' name compiled)) :
    Alike e loaded (.includes optional [some name] put) (.includes optional [some name] put') := by
  refine alike_load alone alike ?_
  show Alike e loaded (if _ then _ else _) (if _ then _ else _)
  split
  · exact alike_done []
  · exact alike_fails

/-! ## Two memories -/

variable {L : Language} {inclusion : Text → L.Part} (strict : L.Strict inclusion) {m m' : L.Memory}
  {put put' : Text → Text → L.Memory → Script Text}
include strict

/-- A piece that looks at no memory is printed alike from any two, and changes none. -/
theorem exists_print_of_plain {p : L.Part} (plain : L.Plain inclusion p) (shows : L.discards m = false)
    (shows' : L.discards m' = false)
    (alike : ∀ name compiled, (name, compiled) ∈ loaded → Alike e loaded (put name compiled m) (put' name compiled m')) :
    ∃ x x' : Script Text, L.print put p m = (·, m) <$> x ∧ L.print put' p m' = (·, m') <$> x' ∧ Alike e loaded x x' := by
  rcases plain with ⟨t, rfl⟩ | ⟨name, rfl⟩
  · refine ⟨.done t, .done t, ?_, ?_, alike_done t⟩
    · rw [strict.literal, shows]
      rfl
    · rw [strict.literal, shows']
      rfl
  · exact ⟨_, _, strict.inclusion put name shows, strict.inclusion put' name shows', alike_includes alone (alike name)⟩

theorem exists_printAll_of_plain (shows : L.discards m = false) (shows' : L.discards m' = false)
    (alike : ∀ name compiled, (name, compiled) ∈ loaded → Alike e loaded (put name compiled m) (put' name compiled m'))
    (ps : List L.Part) (plain : ∀ p ∈ ps, L.Plain inclusion p) :
    ∃ x x' : Script Text, L.printAll put ps m = (·, m) <$> x ∧ L.printAll put' ps m' = (·, m') <$> x' ∧
      Alike e loaded x x' := by
  induction ps with
  | nil => exact ⟨.done [], .done [], rfl, rfl, alike_done []⟩
  | cons p ps ih =>
    obtain ⟨x, x', first, first', same⟩ :=
      exists_print_of_plain alone strict (plain p (List.mem_cons_self ..)) shows shows' alike
    obtain ⟨y, y', rest, rest', same'⟩ := ih fun q mem => plain q (List.mem_cons_of_mem p mem)
    refine ⟨x >>= fun text => (text ++ ·) <$> y, x' >>= fun text => (text ++ ·) <$> y', ?_, ?_,
      same.bind fun text => same'.map (text ++ ·)⟩
    · simp only [Language.printAll, first, rest, map_eq_pure_bind, bind_assoc, pure_bind]
    · simp only [Language.printAll, first', rest', map_eq_pure_bind, bind_assoc, pure_bind]

theorem alike_printTemplate (shows : L.discards m = false) (shows' : L.discards m' = false)
    (alike : ∀ name compiled, (name, compiled) ∈ loaded → Alike e loaded (put name compiled m) (put' name compiled m'))
    (ps : List L.Part) (plain : ∀ p ∈ ps, L.Plain inclusion p) :
    Alike e loaded (L.printTemplate put ps m) (L.printTemplate put' ps m') := by
  obtain ⟨x, x', all, all', same⟩ := exists_printAll_of_plain alone strict shows shows' alike ps plain
  have once {put : Text → Text → L.Memory → Script Text} {m : L.Memory} {x : Script Text}
      (all : L.printAll put ps m = (·, m) <$> x) (shows : L.discards m = false) :
      L.printTemplate put ps m = (fun text => (text ++ [], false)) <$> x := by
    rw [Language.printTemplate, all, map_eq_pure_bind, map_eq_pure_bind, bind_assoc]
    refine bind_congr fun text => ?_
    rw [pure_bind]
    dsimp only
    rw [strict.finish put shows, shows]
    rfl
  rw [once all shows, once all' shows']
  exact same.map _

/-- **Every include is printed alike**, however deep it is. -/
theorem alike_put (closed : ∀ name compiled, (name, compiled) ∈ loaded → L.grammar.Within (L.Plain inclusion) compiled)
    (nesting : Nat) : ∀ {name compiled : Text} {m m' : L.Memory}, (name, compiled) ∈ loaded →
      Alike e loaded (L.put nesting name compiled m) (L.put nesting name compiled m') := by
  induction nesting with
  | zero =>
    intro name compiled m m' mem
    exact alike_fails
  | succ nesting ih =>
    intro name compiled m m' mem
    rw [Language.put, Language.put]
    cases read : L.grammar.parse? compiled with
    | none => exact alike_fails
    | some ps =>
      obtain ⟨-, behind, reads⟩ := Grammar.reads_of_parseUpTo? _ _ _ read
      exact (alike_printTemplate alone strict (strict.fresh name ps .null m).2 (strict.fresh name ps .null m').2
        (fun _ _ => ih) ps (closed name compiled mem _ _ _ reads)).map Prod.fst

/-- **A text that looks nothing up is rendered the same in every context**, if there are no templates to
include. -/
theorem renderCompiled_of_within (name : Text) {compiled : Text} (within : L.grammar.Within (L.Plain inclusion) compiled)
    (c c' : Value) : e.renderCompiled name compiled c' L.renderer = e.renderCompiled name compiled c L.renderer := by
  have closed : ∀ name' compiled', (name', compiled') ∈ [(name, compiled)] →
      L.grammar.Within (L.Plain inclusion) compiled' := by
    intro name' compiled' mem
    obtain ⟨rfl, rfl⟩ := Prod.mk.inj (List.mem_singleton.1 mem)
    exact within
  have alike : Alike e [(name, compiled)] (L.renderer name compiled c) (L.renderer name compiled c') := by
    unfold Language.renderer Language.perform
    cases read : L.grammar.parse? compiled with
    | none => exact alike_fails
    | some ps =>
      obtain ⟨-, behind, reads⟩ := Grammar.reads_of_parseUpTo? _ _ _ read
      have m := L.start name ps c
      exact (alike_printTemplate alone strict (strict.fresh name ps c m).1 (strict.fresh name ps c' m).1
        (fun _ _ => alike_put alone strict closed L.maxNesting) ps (within _ _ _ reads)).map Prod.fst
  funext s
  show (Prod.fst <$> e.play _ _ : Action σ Text).run s = (Prod.fst <$> e.play _ _ : Action σ Text).run s
  rw [run_map, run_map, (alike s).1]

end Load

end Engine

end TagTemplate
