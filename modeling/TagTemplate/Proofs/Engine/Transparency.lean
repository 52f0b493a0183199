/-
# Proofs.Engine.Transparency -- definitions are transparent where nothing is inherited

A source that nests, takes no part in inheritance and defines each name once at most is
compiled as if the tags of its block definitions were not among its tokens: to the same
text, whatever the handlers are, and without a report (`definitions_are_transparent`).  It
is no matter whether the source is a text in memory or the file of a template.

The tags are taken from the tokens, after blanks were stripped.  A source that has been
edited gives the same if it reads as what is left (`Settings.Leaves`): with the other tags,
and the texts between them joined.  Cutting the tags out of the text is such an edit if no
tag has a strip modifier and no text that is left has `tpl:` in it.  Otherwise the output
may change: the two ends of a cut can join to a new tag, and a tag that strips blanks can
meet some that it did not strip before (`cutting_definitions_changes_output`).
-/
import TagTemplate.Proofs.Compile.Outline
import TagTemplate.Proofs.Compile.Output
import TagTemplate.Proofs.Compile.Transparency
import TagTemplate.Proofs.Engine.Extending

namespace TagTemplate

set_option autoImplicit false

variable {σ : Type}

/-! ## Sources that stand alone -/

namespace Settings

def tokens (s : Settings) (source : Text) : List Token := Token.tokenize (Source.prepare s.options source)

/-- What the tokens of a source are built to without the tags of block definitions. -/
def inlined (s : Settings) (source : Text) : Builder :=
  Tree.build (withoutDefinitions (s.tokens source)) (Source.prepare s.options source) {} {}

/-- A source reads as what is left of another without the tags of block definitions. -/
def Leaves (s : Settings) (source source' : Text) : Prop :=
  Token.outline (s.tokens source') = Token.outline (withoutDefinitions (s.tokens source))

instance (s : Settings) (source source' : Text) : Decidable (s.Leaves source source') :=
  inferInstanceAs (Decidable (_ = _))

end Settings

theorem Token.parent?_of_inherits {t : Token} (alone : t.inherits = false) : t.parent? = none := by
  unfold Token.inherits at alone
  unfold Token.parent?
  cases fragment : t.fragment with
  | text x => rfl
  | tag tag =>
    rw [fragment] at alone
    cases shape : tag.shape with
    | value raw =>
      simp only [shape, Bool.or_eq_false_iff, beq_eq_false_iff_ne] at alone
      simp only [shape, if_neg alone.1]
    | opening raw selfClosing => simp only [shape]
    | closing => simp only [shape]

namespace Standalone

variable {tokens : List Token}

/-- What is left of tokens that stand alone is well nested. -/
theorem nested (standalone : Standalone tokens) : ∃ plain, Nested (withoutDefinitions tokens) plain := by
  obtain ⟨_, _, plain, tells⟩ := exists_tells standalone.balanced standalone.alone
  exact ⟨plain, tells.nested⟩

theorem parent? {s : Settings} {source : Text} (standalone : Standalone (s.tokens source)) : s.parent? source = none :=
  List.findSome?_eq_none_iff.2 fun t mem => Token.parent?_of_inherits (standalone.alone t mem)

/-- A source that reads as what is left extends nothing either. -/
theorem parent?_of_leaves {s : Settings} {source source' : Text} (standalone : Standalone (s.tokens source))
    (leaves : s.Leaves source source') : s.parent? source' = none := by
  obtain ⟨plain, nested⟩ := standalone.nested
  obtain ⟨plain', nested'⟩ := nested.of_outline leaves
  refine List.findSome?_eq_none_iff.2 fun t mem => Token.parent?_of_inherits ?_
  have ordinary := nested'.ordinary t mem
  rw [Token.isReserved_eq, Bool.or_eq_false_iff] at ordinary
  exact ordinary.2

end Standalone

/-! ## Compiling -/

namespace Engine

variable (e : Engine σ)

/-- An action that compiles a source: a text in memory, or the file of the template that a name finds. -/
inductive Compiling (s : Session σ) (source : Text) : Action σ Compilation → Prop where
  | text : Compiling s source (e.compileSource source)
  | template {name : Text} {t : Template} (found : e.settings.searchPath.find? s.files name = some t)
      (read : s.files.readAt t.file = .ok source) : Compiling s source (e.compile name)

variable {e} {s s' : Session σ} {source source' : Text} {action action' : Action σ Compilation}

/-- A source that extends nothing is compiled as it is built on its own. -/
theorem Compiling.run (compiles : e.Compiling s source action) (extendsNone : e.settings.parent? source = none) :
    ∃ file : Option Location,
      (action.run s).1 = .ok ⟨((e.settings.alone source).compiled e.registry s.handlers).1,
          (e.settings.alone source).diagnostics.map fun d => { d with file }⟩ ∧
        (action.run s).2.handlers = ((e.settings.alone source).compiled e.registry s.handlers).2 := by
  cases compiles with
  | text => exact ⟨none, e.run_compileSource_of_extendsNone extendsNone s⟩
  | @template name t found read =>
    have last : Chain.Follows e.settings s.files {} (some t) source []
        (Chain.buildFile e.settings {} (some t) source).2 :=
      .last (by rw [Chain.extendsTarget_buildFile, Settings.extends?_eq, extendsNone])
    obtain ⟨s₁, same, run⟩ := e.run_compile_of_built found
      (Chain.ofTemplate_eq_ok_iff.2 ⟨_, source, [], rfl, read, last⟩)
    refine ⟨some t.file, ?_⟩
    rw [run, Chain.run_compileChain, same]
    exact ⟨rfl, rfl⟩

/-- **Block definitions are transparent without inheritance.**  A source that nests, without `extends` and `parent` tags
and with at most one definition of each name, compiles to the text that its tokens compile to without the tags of
definitions.  There are no reports, and handlers with a state go through the same.  Any source that reads as what is left
gives the same, from a session with the handlers in the same state, and so does the text with the tags cut out if there
are no strip modifiers and no `tpl:` is left between the other tags. -/
theorem definitions_are_transparent (standalone : Standalone (e.settings.tokens source))
    (compiles : e.Compiling s source action) :
    (action.run s).1 = .ok ⟨((e.settings.inlined source).compiled e.registry s.handlers).1, []⟩ ∧
      (action.run s).2.handlers = ((e.settings.inlined source).compiled e.registry s.handlers).2 ∧
      (∀ source' s' action', e.settings.Leaves source source' → s'.handlers = s.handlers →
        e.Compiling s' source' action' →
        (action'.run s').1 = (action.run s).1 ∧ (action'.run s').2.handlers = (action.run s).2.handlers) ∧
      (Unstripped ((e.settings.tokens source).map (·.fragment)) →
        (∀ x ∈ outlineTexts (Token.outline (withoutDefinitions (e.settings.tokens source))), ¬ "tpl:".toList <:+: x) →
        ∀ source', Source.prepare e.settings.options source' = cutDefinitions (Source.prepare e.settings.options source) →
          e.settings.Leaves source source') := by
  obtain ⟨compiled, -, clean, -⟩ := compile_build_withoutDefinitions standalone (Source.prepare e.settings.options source)
    (Source.prepare e.settings.options source) e.registry s.handlers
  obtain ⟨file, result, handlers⟩ := compiles.run standalone.parent?
  have alone : (e.settings.alone source).compiled e.registry s.handlers
      = (e.settings.inlined source).compiled e.registry s.handlers := compiled
  have silent : (e.settings.alone source).diagnostics = [] := clean
  rw [alone, silent] at result
  rw [alone] at handlers
  refine ⟨result, handlers, fun source' s' action' leaves equal compiles' => ?_, fun unstripped plain source' cut => ?_⟩
  · obtain ⟨plain, nested⟩ := standalone.nested
    obtain ⟨compiled', clean'⟩ := compile_build_of_outline nested leaves (Source.prepare e.settings.options source)
      (Source.prepare e.settings.options source') e.registry s.handlers
    obtain ⟨file', result', handlers'⟩ := compiles'.run (standalone.parent?_of_leaves leaves)
    have alone' : (e.settings.alone source').compiled e.registry s.handlers
        = (e.settings.inlined source).compiled e.registry s.handlers := compiled'
    have silent' : (e.settings.alone source').diagnostics = [] := clean'
    rw [equal, alone', silent'] at result'
    rw [equal, alone'] at handlers'
    exact ⟨result'.trans result.symm, handlers'.trans handlers.symm⟩
  · rw [Settings.Leaves, Settings.tokens, cut]
    exact outline_cutDefinitions unstripped plain

/-- Definitions in each other and in a block, one of which closes itself. -/
def nestedDefinitions : Text :=
  "<tpl:Block name=\"a\">x<tpl:A>\x7b\x7btpl:v\x7d\x7d".toList ++
    "<tpl:Block name=\"b\">y<tpl:Block name=\"c\"/></tpl:Block></tpl:A></tpl:Block>\x7b\x7btpl:v\x7d\x7d".toList

def countingEngine : Engine Nat := { registry := countingRegistry, settings := librarySettings, cache := ⟨[]⟩ }

theorem nestedDefinitions_are_transparent :
    let s : Session Nat := ⟨libraryOf [(['c'], nestedDefinitions)], 0, []⟩
    let left := "x<tpl:A>\x7b\x7btpl:v\x7d\x7dy</tpl:A>\x7b\x7btpl:v\x7d\x7d".toList
    Standalone (countingEngine.settings.tokens nestedDefinitions) ∧ cutDefinitions nestedDefinitions = left ∧
      ((countingEngine.compileSource left).run s).1 = ((countingEngine.compile ['c']).run s).1 ∧
      ((countingEngine.compileSource left).run s).2.handlers = ((countingEngine.compile ['c']).run s).2.handlers ∧
      ((countingEngine.compile ['c']).run s).1.toOption.map (·.output) = some "xA(v0y)v2".toList := by
  intro s left
  have standalone : Standalone (countingEngine.settings.tokens nestedDefinitions) := by decide +kernel
  have compiles : countingEngine.Compiling s nestedDefinitions (countingEngine.compile ['c']) :=
    .template (t := ⟨['c'], [], [['c']]⟩) (by decide +kernel) (by decide +kernel)
  obtain ⟨-, -, same, cut⟩ := definitions_are_transparent standalone compiles
  have leaves := cut (by decide +kernel) (by decide +kernel) left (by decide +kernel)
  obtain ⟨result, handlers⟩ := same left s (countingEngine.compileSource left) leaves rfl .text
  exact ⟨standalone, by decide +kernel, result, handlers, by decide +kernel⟩

/-- A definition whose tags stand in the middle of the letters of another tag. -/
def splitTag : Text := "<<tpl:Block name=\"a\">tpl:x/></tpl:Block>".toList

/-- A definition with blanks, behind a tag that strips blanks. -/
def shelteredBlanks : Text := "\x7b\x7btpl:x~\x7d\x7d<tpl:Block name=\"a\"> t</tpl:Block>".toList

/-- **Cutting tags of definitions out of the text may change the output.** -/
theorem cutting_definitions_changes_output :
    let output (source : Text) := ((libraryEngine.compileSource source).run ⟨FileSystem.empty, (), []⟩).1.toOption.map (·.output)
    Standalone (libraryEngine.settings.tokens splitTag) ∧ cutDefinitions splitTag = "<tpl:x/>".toList ∧
      output splitTag = some "<tpl:x/>".toList ∧ output (cutDefinitions splitTag) = some [] ∧
      Standalone (libraryEngine.settings.tokens shelteredBlanks) ∧
      output shelteredBlanks = some " t".toList ∧ output (cutDefinitions shelteredBlanks) = some "t".toList := by
  decide +kernel

end Engine

end TagTemplate
