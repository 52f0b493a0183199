/-
# Proofs.Engine.Notes -- the list of diagnostics survives rendering

An artifact is the output of a compilation with the list of its diagnostics behind it,
in a raw region on a line of its own.  In every regular language it is performed as the
output is (`perform_artifact`), and so it renders wherever the output does: to the same text
and the list behind it, word for word (`artifact_renders`).  This needs three things.

The paths of the files in the list must not hold an `endraw` statement, which would end
the region too early.  The names of tags in the list never do (`names_of_compiles`).

The line feed before the list is kept unless the output removes it: if its last
statement has a minus sign at its closing delimiter, white space behind is not printed.

The output must not extend another template, which is then printed in the place of all
literal text that follows.

Both texts are performed among the same templates; one that includes itself finds the
same text in both cases.

Poles: `endraw_in_path_is_an_error` (a template is compiled from a file of such a name,
and its artifact does not render) and `minus_sign_joins_lines` (the list follows the
output on the same line).
-/
import TagTemplate.Proofs.Compile.Joined
import TagTemplate.Proofs.Engine.Play
import TagTemplate.Proofs.Engine.Walk
import TagTemplate.Proofs.Rendering.Lookups
import TagTemplate.Proofs.Rendering.Verbatim
import TagTemplate.Proofs.Tree.Graft

namespace TagTemplate

set_option autoImplicit false

open Text

variable {σ : Type}

/-! ## Diagnostics name tags -/

namespace Chain

variable {s : Settings} {fs : FileSystem}

theorem names_buildFile {c : Chain} (names : ∀ d ∈ c.diagnostics, Tag.IsName d.tag) (origin : Option Template)
    (source : Text) : ∀ d ∈ (buildFile s c origin source).2.diagnostics, Tag.IsName d.tag := by
  intro d mem
  rcases List.mem_append.1 mem with mem | mem
  · exact names d mem
  · obtain ⟨d', mem', rfl⟩ := List.mem_map.1 mem
    rw [(Tree.behind_build _ _ c.tree c.blocks).diagnostics] at mem'
    exact (Builder.isName_of_mem_diagnostics _ _ d' mem').2

theorem names_of_follows {c chain : Chain} {origin : Option Template} {source : Text} {further : List Location}
    (follows : Follows s fs c origin source further chain) (names : ∀ d ∈ c.diagnostics, Tag.IsName d.tag) :
    ∀ d ∈ chain.diagnostics, Tag.IsName d.tag := by
  induction follows with
  | last _ => exact names_buildFile names _ _
  | next _ _ _ _ _ ih => exact ih (names_buildFile names _ _)

theorem names_of_ofSource {origin : Option Template} {source : Text} {log : List Event} {chain : Chain}
    (built : ((ofSource s fs origin source).run log).1 = .ok chain) : ∀ d ∈ chain.diagnostics, Tag.IsName d.tag := by
  obtain ⟨_, follows⟩ := ofSource_eq_ok_iff.1 built
  exact names_of_follows follows nofun

end Chain

namespace Engine

variable (e : Engine σ)

/-- What compiling a template or a text in memory comes to. -/
inductive Compiles (s : Session σ) (c : Compilation) : Prop where
  | template (name : Text) (ok : ((e.compile name).run s).1 = .ok c)
  | inMemory (source : Text) (ok : ((e.compileSource source).run s).1 = .ok c)

variable {e} {s : Session σ} {c : Compilation}

theorem names_of_compiles (compiles : e.Compiles s c) : ∀ d ∈ c.diagnostics, Tag.IsName d.tag := by
  cases compiles with
  | template name ok =>
    rw [run_compile] at ok
    split at ok
    · obtain ⟨files, chain, reads, rfl⟩ := e.compilationOf_eq_ok_iff.1 ok
      obtain ⟨source, further, -, -, follows⟩ := reads.follows
      exact Chain.names_of_follows follows nofun
    · cases ok
  | inMemory source ok =>
    rw [run_compileSource] at ok
    cases built : ((Chain.ofSource e.settings s.files none source).run []).1 with
    | error err =>
      rw [built] at ok
      cases ok
    | ok chain =>
      rw [built] at ok
      cases ok
      exact Chain.names_of_ofSource built

end Engine

/-! ## Printing more -/

namespace Language

variable {L : Language} (regular : L.Regular) (put : Text → Text → L.Memory → Script Text)
include regular

/-- Literal text behind some pieces is printed behind what they print, unless they extend another template. -/
theorem printAll_followed {text : Text} {ps rs : List L.Part} (followed : L.grammar.Followed text ps rs) (m : L.Memory) :
    L.printAll put rs m
      = (fun r => (r.1 ++ (if L.discards r.2 then [] else text), r.2)) <$> L.printAll put ps m := by
  induction followed generalizing m with
  | nothing => simp [printAll]
  | piece text => simp [printAll, regular.literal, Script.done_eq_pure]
  | longer t text =>
    cases discards : L.discards m <;> simp [printAll, regular.literal, Script.done_eq_pure, discards]
  | behind p followed ih => simp [printAll, ih]

theorem printTemplate_followed {text : Text} {ps rs : List L.Part} (followed : L.grammar.Followed text ps rs)
    (m : L.Memory) :
    L.printTemplate put rs m = (fun r => (if r.2 then r.1 else r.1 ++ text, r.2)) <$> L.printTemplate put ps m := by
  rw [printTemplate, printTemplate, printAll_followed regular put followed, map_eq_pure_bind, map_eq_pure_bind, bind_assoc,
    bind_assoc]
  refine bind_congr fun r => ?_
  rw [pure_bind]
  cases discards : L.discards r.2 with
  | true => simp [discards]
  | false => simp [regular.finish put discards, Script.done_eq_pure, discards]

end Language

namespace Engine

/-! ## Rendering the artifact -/

variable {e : Engine σ} {s : Session σ} {c : Compilation} {L : Language}

/-- What is printed of an artifact, from what is printed of the output and whether that extends another template. -/
def withNote (c : Compilation) (line : Text) (r : Text × Bool) : Text × Bool :=
  (if r.2 then r.1 else r.1 ++ line ++ c.note ++ ['\n'], r.2)

/-- **An artifact is performed as its output**, with the list of diagnostics behind what that prints. -/
theorem perform_artifact (regular : L.Regular) (faulty : c.hasErrors = true) (quiet : Piece.Quiet c.note)
    {ps : List L.Part} (read : L.grammar.parse? c.output = some ps) :
    ∃ line, (line = [] ∧ L.grammar.RemovesBehind c.output ∨ line = ['\n'] ∧ ¬ L.grammar.RemovesBehind c.output) ∧
      ∀ name context, L.perform name c.artifact context = withNote c line <$> L.perform name c.output context := by
  obtain ⟨behind, rs, removed, followed, read'⟩ := Compilation.parse?_artifact regular.grammar faulty quiet read
  refine ⟨if behind then [] else ['\n'], ?_, fun name context => ?_⟩
  · cases behind with
    | true => exact .inl ⟨rfl, removed.1 rfl⟩
    | false => exact .inr ⟨rfl, fun removes => nomatch removed.2 removes⟩
  · have noted : L.grammar.Followed c.note rs _ := Grammar.followed_append c.note rs
    have ended : L.grammar.Followed ['\n'] (rs ++ [L.grammar.literal c.note])
        (rs ++ [L.grammar.literal c.note, L.grammar.literal ['\n']]) := by
      simpa using Grammar.followed_append (g := L.grammar) ['\n'] (rs ++ [L.grammar.literal c.note])
    rw [Language.perform, Language.perform, read, read']
    dsimp only
    rw [regular.start name context ended, regular.start name context noted, regular.start name context followed,
      Language.printTemplate_followed regular _ ended, Language.printTemplate_followed regular _ noted,
      Language.printTemplate_followed regular _ followed, ← comp_map, ← comp_map]
    congr 1
    funext r
    cases extended : r.2 <;> simp [withNote, extended]

/-- **The list of diagnostics survives rendering.**  Where the output renders, the artifact renders among the
same templates to that text, a line feed and the list, word for word.  Only the line feed is lost where the
output removes white space behind it, and all of it where the output extends another template.  Rendering the
artifact by a name is performing it among templates of which it is one itself. -/
theorem artifact_renders (regular : L.Regular) (compiles : e.Compiles s c) (faulty : c.hasErrors = true)
    (paths : ∀ d ∈ c.diagnostics, ∀ f, d.file = some f → Piece.untilEndraw? f.written = none) {name : Text}
    {context : Value} {loaded loaded' : Loaded} {s₁ s₂ : Session σ} {r : Text} {extended : Bool}
    (renders : (e.play loaded (L.perform name c.output context)).run s₁ = (.ok ((r, extended), loaded'), s₂)) :
    e.renderCompiled name c.artifact context L.renderer
        = (fun r => r.1.1) <$> e.play [(name, c.artifact)] (L.perform name c.artifact context) ∧
      ∃ line, (line = [] ∧ L.grammar.RemovesBehind c.output ∨ line = ['\n'] ∧ ¬ L.grammar.RemovesBehind c.output) ∧
        (e.play loaded (L.perform name c.artifact context)).run s₁
          = (.ok ((if extended then r else r ++ line ++ c.note ++ ['\n'], extended), loaded'), s₂) := by
  have tags : ∀ d ∈ c.diagnostics, '{' ∉ d.tag := fun d mem => (names_of_compiles compiles d mem).not_mem rfl
  refine ⟨?_, ?_⟩
  · show Prod.fst <$> e.play _ (Prod.fst <$> _) = _
    rw [play_map, ← comp_map]
    rfl
  · cases read : L.grammar.parse? c.output with
    | none =>
      rw [Language.perform, read] at renders
      cases renders
    | some ps =>
      obtain ⟨line, which, performs⟩ := perform_artifact regular faulty (Compilation.quiet_note tags paths) read
      refine ⟨line, which, ?_⟩
      rw [performs, play_map, run_map, renders]
      rfl

/-- A template with a closing tag that closes nothing. -/
def faultyStage (path : Text) : Session Unit where
  files := libraryOf [(path, "a</tpl:Nope>".toList)]
  handlers := ()

def faultyPage (path : Text) : Compilation where
  output := ['a']
  diagnostics := [⟨.unexpectedClosingTag, "Nope".toList, some [path], ⟨1, 2⟩, 1⟩]

theorem faultyPage_renders :
    ((libraryEngine.compile ['p']).run (faultyStage ['p'])).1 = .ok (faultyPage ['p']) ∧
      (libraryEngine.renderCompiled ['p'] (faultyPage ['p']).artifact .null).run (faultyStage ['p'])
        = (.ok ("a\n<!-- tagtpl: 1 template error(s)\n".toList
            ++ "/p:1:2: unexpected closing tag `</tpl:Nope>`\n-->\n".toList), faultyStage ['p']) := by
  have ok : ((libraryEngine.compile ['p']).run (faultyStage ['p'])).1 = .ok (faultyPage ['p']) := by decide +kernel
  have paths : ∀ d ∈ (faultyPage ['p']).diagnostics, ∀ f, d.file = some f → Piece.untilEndraw? f.written = none := by
    decide
  have renders : (libraryEngine.play [(['p'], (faultyPage ['p']).artifact)]
      (Piece.language.perform ['p'] (faultyPage ['p']).output .null)).run (faultyStage ['p'])
        = (.ok ((['a'], false), [(['p'], (faultyPage ['p']).artifact)]), faultyStage ['p']) := rfl
  obtain ⟨same, line, which, run⟩ := artifact_renders Piece.regular_language (.template ['p'] ok) rfl paths renders
  refine ⟨ok, ?_⟩
  rw [same, run_map, run]
  rcases which with ⟨-, removes⟩ | ⟨rfl, -⟩
  · obtain ⟨gap, ⟨lead, k, split, -⟩, -⟩ := Grammar.exists_of_removesBehind Piece.regular_language.grammar removes
    have brace : '\x7d' ∈ ['a'] := by
      rw [show ['a'] = _ from split]
      simp
    cases brace with
    | tail _ mem => cases mem
  · rfl

/-- A name of a file that ends a raw region. -/
def endingName : Text := "x\x7b% endraw %\x7d".toList

/-- **An `endraw` statement in a path breaks the artifact**: the template compiles and its output renders, but the
artifact does not. -/
theorem endraw_in_path_is_an_error :
    ((libraryEngine.compile endingName).run (faultyStage endingName)).1 = .ok (faultyPage endingName) ∧
      ((libraryEngine.renderCompiled endingName (faultyPage endingName).output .null).run
        (faultyStage endingName)).1 = .ok ['a'] ∧
      ((libraryEngine.renderCompiled endingName (faultyPage endingName).artifact .null).run
        (faultyStage endingName)).1 = .error .render :=
  ⟨by decide +kernel, by decide +kernel, by decide +kernel⟩

/-- A faulty text whose last statement removes white space behind it. -/
def joiningSource : Text := "\x7b\x7b a -\x7d\x7d</tpl:Nope>".toList

def joiningPage : Compilation where
  output := "\x7b\x7b a -\x7d\x7d".toList
  diagnostics := [⟨.unexpectedClosingTag, "Nope".toList, none, ⟨1, 9⟩, 8⟩]

/-- Where the output removes white space behind it, the list stands on the last line of what it prints. -/
theorem minus_sign_joins_lines :
    let s : Session Unit := ⟨.empty, (), []⟩
    let context : Value := .record [(['a'], .text ['b'])]
    ((libraryEngine.compileSource joiningSource).run s).1 = .ok joiningPage ∧
      ((libraryEngine.renderCompiled sourceName joiningPage.output context).run s).1 = .ok ['b'] ∧
      ((libraryEngine.renderCompiled sourceName joiningPage.artifact context).run s).1
        = .ok ('b' :: joiningPage.note ++ ['\n']) :=
  ⟨by decide +kernel, by decide +kernel, by decide +kernel⟩

end Engine

end TagTemplate
