/-
# Proofs.Engine.Literals -- literals that are passed print as they stand

A source of plain text and literals has no tags, so it compiles to its prepared text, with
no faults and no handler called, whatever the engine finds on its search path
(`run_compileSource_literals`).  If no literal holds an `endraw` statement, that text is read
into literal texts only, which together are the source; so rendering gives the source back,
in every context.  Otherwise the text is not read, and rendering is an error
(`renderSource_literals`).
-/
import TagTemplate.Engine.Render
import TagTemplate.Proofs.Engine.Extending
import TagTemplate.Proofs.Engine.Stripping
import TagTemplate.Proofs.Rendering.Literals

namespace TagTemplate

set_option autoImplicit false

open Text

variable {σ : Type}

/-! ## Rendering -/

namespace Language

variable {L : Language} (regular : L.Regular)
include regular

/-- Literal texts are printed one after the other. -/
theorem printAll_texts (put : Text → Text → L.Memory → Script Text) {m : L.Memory} (shows : L.discards m = false)
    (ts : List Text) : L.printAll put (ts.map L.grammar.literal) m = .done (ts.flatten, m) := by
  induction ts with
  | nil => rfl
  | cons t ts ih =>
    rw [List.map_cons, printAll, regular.literal, shows]
    show (L.printAll put (ts.map L.grammar.literal) m >>= _) = _
    rw [ih]
    rfl

theorem perform_texts {name compiled : Text} {context : Value} {ts : List Text}
    (read : L.grammar.parse? compiled = some (ts.map L.grammar.literal))
    (shows : L.discards (L.start name (ts.map L.grammar.literal) context) = false) :
    L.perform name compiled context = .done (ts.flatten, false) := by
  rw [perform, read]
  dsimp only
  rw [printTemplate, printAll_texts regular _ shows]
  show (L.finish _ _ >>= _) = _
  rw [regular.finish _ shows]
  show Script.done (ts.flatten ++ [], L.discards _) = _
  rw [shows, List.append_nil]

end Language

namespace Engine

variable (e : Engine σ)

theorem renderCompiled_of_shows {compiled shown : Text} (shows : Piece.Shows compiled shown) (name : Text)
    (context : Value) : e.renderCompiled name compiled context = pure shown := by
  obtain ⟨ts, reads, rfl⟩ := shows.exists_reads
  have read : Piece.parse? compiled = some (ts.map .text) := Piece.parse?_eq_some_iff.2 ⟨false, reads⟩
  have performs : Piece.language.perform name compiled context = .done (ts.flatten, false) :=
    Language.perform_texts Piece.regular_language read rfl
  rw [renderCompiled, Language.renderer, performs]
  rfl

theorem renderCompiled_of_unread {compiled : Text} (unread : Piece.Unread compiled) (name : Text) (context : Value) :
    e.renderCompiled name compiled context = throw .render := by
  have read : Piece.language.grammar.parse? compiled = none := by
    rw [Option.eq_none_iff_forall_ne_some]
    intro ps parsed
    obtain ⟨behind, reads⟩ := Piece.parse?_eq_some_iff.1 parsed
    exact unread ps behind reads
  rw [renderCompiled, Language.renderer, Language.perform, read]
  rfl

/-! ## Compiling -/

/-- **A source of literals compiles to its prepared text.** -/
theorem run_compileSource_literals (options : e.settings.options = ⟨true, true⟩) {source : Text}
    {ss : List Source.Snippet} (literals : Source.Literals source ss) (s : Session σ) :
    ((e.compileSource source).run s).1 = .ok ⟨Source.stripSnippets true source, []⟩ := by
  have tokens := literals.tokenize
  obtain ⟨ms, nested, performs, silent⟩ : ∃ ms, Nested (Token.tokenize (Source.prepare ⟨true, true⟩ source)) ms ∧
      (Markup.performAll e.registry ms).run s.handlers = (Source.stripSnippets true source, s.handlers) ∧
      (Token.tokenize (Source.prepare ⟨true, true⟩ source)).findSome? Token.parent? = none := by
    rw [tokens]
    split
    · rename_i empty
      rw [empty]
      exact ⟨[], .nil, rfl, rfl⟩
    · refine ⟨[.text (Source.stripSnippets true source)], .text rfl .nil, ?_, rfl⟩
      show (Source.stripSnippets true source ++ [], s.handlers) = _
      rw [List.append_nil]
  have extendsNone : e.settings.parent? source = none := by
    rw [← options] at silent
    exact silent
  have compiled : (e.settings.alone source).compiled e.registry s.handlers
      = (Source.stripSnippets true source, s.handlers) := by
    rw [Settings.alone, options, (compile_build_eq_perform nested _ _ _ _ _).1, performs]
  have faultless : (e.settings.alone source).diagnostics = [] := by
    rw [Settings.alone, options]
    exact diagnostics_build_of_nested nested _ _ _
  rw [(e.run_compileSource_of_extendsNone extendsNone s).1, compiled, faultless]
  rfl

/-! ## Rendering a source -/

/-- **Literals that are passed print as they stand, unless one of them ends a raw region.**  With literals passed, a
source of plain text and literals renders to itself in every context if no literal holds an `endraw` statement; if one
does, rendering is an error. -/
theorem renderSource_literals (options : e.settings.options = ⟨true, true⟩) {source : Text} {ss : List Source.Snippet}
    (literals : Source.Literals source ss) (context : Value) (s : Session σ) :
    ((∀ l ∈ ss, Piece.untilEndraw? l.written = none) →
        ((e.renderSource source context).run s).1 = .ok source) ∧
      ((∃ l ∈ ss, Piece.untilEndraw? l.written ≠ none) →
        ((e.renderSource source context).run s).1 = .error .render) := by
  have compiles := e.run_compileSource_literals options literals s
  rw [renderSource, run_bind]
  rcases run : (e.compileSource source).run s with ⟨r, s'⟩
  rw [run] at compiles
  obtain rfl : r = _ := compiles
  have artifact : Compilation.artifact ⟨Source.stripSnippets true source, []⟩ = Source.stripSnippets true source := rfl
  dsimp only
  rw [artifact]
  constructor
  · intro quiet
    rw [e.renderCompiled_of_shows (literals.shows quiet)]
    rfl
  · intro loud
    rw [e.renderCompiled_of_unread (literals.unread loud)]
    rfl

def lookupLiteral : Source.Snippet := ⟨'{', "name".toList, '}'⟩
def statementLiteral : Source.Snippet := ⟨'%', "if <\x7b\x7b\x7b% raw \x7d".toList, '%'⟩

def literalSource : Text := "Hi ".toList ++ (lookupLiteral.written ++ (", ".toList ++ (statementLiteral.written ++ [])))

theorem renderSource_literalSource :
    Source.Literals literalSource [lookupLiteral, statementLiteral] ∧
      (∀ l ∈ [lookupLiteral, statementLiteral], Piece.untilEndraw? l.written = none) ∧
      (((stripping true ⟨[]⟩ true).renderSource literalSource (naming "name".toList "one".toList)).run
        (⟨.empty, (), []⟩ : Session Unit)).1 = .ok literalSource := by
  have lookup : lookupLiteral.IsLiteral :=
    ⟨.inl rfl, rfl, (Source.close?_eq_none_iff _).1 rfl, by decide, by decide, by decide⟩
  have statement : statementLiteral.IsLiteral :=
    ⟨.inr rfl, rfl, (Source.close?_eq_none_iff _).1 rfl, by decide, by decide, by decide⟩
  have literals : Source.Literals literalSource [lookupLiteral, statementLiteral] :=
    .plain (by simp) (.literal lookup (.plain (by simp) (.literal statement .nil)))
  have quiet : ∀ l ∈ [lookupLiteral, statementLiteral], Piece.untilEndraw? l.written = none := by decide +kernel
  exact ⟨literals, quiet, (renderSource_literals (stripping true ⟨[]⟩ true) rfl literals _ _).1 quiet⟩

/-- The `endraw` statement as a literal of its own. -/
def endrawLiteral : Source.Snippet := ⟨'%', "endraw".toList, '%'⟩

/-- **A literal can end its own raw region.**  The `endraw` statement, written without white space, is a literal by all
rules, but rendering it is an error. -/
theorem renderSource_endrawLiteral :
    Source.Literals "{%endraw%}".toList [endrawLiteral] ∧
      (((stripping true ⟨[]⟩ true).renderSource "{%endraw%}".toList .null).run
        (⟨.empty, (), []⟩ : Session Unit)).1 = .error .render := by
  have literal : endrawLiteral.IsLiteral :=
    ⟨.inr rfl, rfl, (Source.close?_eq_none_iff _).1 rfl, by decide, by decide, by decide⟩
  exact ⟨.literal literal .nil, by decide +kernel⟩

end Engine

end TagTemplate
