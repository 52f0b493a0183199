/-
# Proofs.Engine.Stripping -- what stripping keeps the context from

Once the regions of the rendering language are stripped, what a source renders to no
longer depends on the context, as long as its regions and its tags do not get into each
other's way (`Source.Untangled`).  Regions are found before tags are read, so a tag may cut
through what is left of one, or be gone when the renderer comes to the braces on both sides
of it.  Otherwise two contexts give the same result, in every strict language
(`renderSource_ignores_context`).

In a source without tags, only what stripping leaves alone can get in the way: a region with
mismatched delimiters, which may still be a statement (`Source.untangled_of_tagFree`).

Pole: `parted_delimiter_renders` (a tag that compiles to nothing parts the two halves of an
opening delimiter, which stripping does not see and the renderer does).
-/
import TagTemplate.Proofs.Compile.Joined
import TagTemplate.Proofs.Engine.Render
import TagTemplate.Proofs.Rendering.Lookups
import TagTemplate.Proofs.Rendering.Stripped

namespace TagTemplate

set_option autoImplicit false

variable {σ : Type}

/-! ## Texts between tags -/

namespace Token

def texts (ts : List Token) : List Text :=
  ts.filterMap fun t =>
    match t.fragment with
    | .text x => some x
    | .tag _ => none

theorem mem_texts_iff {ts : List Token} {x : Text} : x ∈ texts ts ↔ ∃ t ∈ ts, t.fragment = .text x := by
  rw [texts, List.mem_filterMap]
  refine exists_congr fun t => and_congr_right fun _ => ?_
  cases t.fragment <;> simp

end Token

namespace Source

open Token (texts tokenize)

/-- The regions of the rendering language and the tags of a source do not get into each other's way. -/
structure Untangled (passLiterals : Bool) (source : Text) : Prop where
  /-- No tag cuts through a region: a text in front of a tag is what stripping leaves of some cells.  None of their
  regions is taken for a statement, and no opening delimiter is left open. -/
  front : ∀ x ∈ texts (tokenize (prepare ⟨true, passLiterals⟩ source)).dropLast,
    ∃ cs, cs <:+: cells (removeComments source) ∧ kept passLiterals cs = x ∧ isHarmless passLiterals false cs = true
  /-- So is the text behind the last tag, but there an opening delimiter may be left open. -/
  last : ∀ x ∈ texts (tokenize (prepare ⟨true, passLiterals⟩ source)).getLast?.toList,
    ∃ cs, cs <:+: cells (removeComments source) ∧ kept passLiterals cs = x ∧ isHarmless passLiterals true cs = true
  /-- If a text in front of a tag ends with a brace, no text starts like the rest of a delimiter. -/
  apart : (∀ x ∈ texts (tokenize (prepare ⟨true, passLiterals⟩ source)).dropLast, x.getLast? ≠ some '{') ∨
    ∀ x ∈ texts (tokenize (prepare ⟨true, passLiterals⟩ source)), Text.startsWith isOpenerMark x = false

/-- What texts may end with decides what texts have to start with: `brace` says whether one may end with a brace. -/
theorem Untangled.exists_brace {passLiterals : Bool} {source : Text} (untangled : Untangled passLiterals source) :
    ∃ brace, (∀ x ∈ texts (tokenize (prepare ⟨true, passLiterals⟩ source)).dropLast,
        x.getLast? = some '{' → brace = true) ∧
      (brace = true → ∀ x ∈ texts (tokenize (prepare ⟨true, passLiterals⟩ source)),
        Text.startsWith isOpenerMark x = false) := by
  rcases untangled.apart with none | none
  · exact ⟨false, fun x mem ends => absurd ends (none x mem), nofun⟩
  · exact ⟨true, fun _ _ _ => rfl, fun _ => none⟩

/-- **A source without tags is untangled** if none of its regions is taken for a statement. -/
theorem untangled_of_tagFree {passLiterals : Bool} {source : Text}
    (harmless : isHarmless passLiterals true (cells (removeComments source)) = true)
    (free : Token.TagFree (prepare ⟨true, passLiterals⟩ source)) : Untangled passLiterals source := by
  have left : prepare ⟨true, passLiterals⟩ source = kept passLiterals (cells (removeComments source)) :=
    stripSnippets_eq passLiterals _
  have single : ∀ ts : List Token, ts = tokenize (prepare ⟨true, passLiterals⟩ source) →
      texts ts.dropLast = [] ∧ ∀ x ∈ texts ts.getLast?.toList, x = prepare ⟨true, passLiterals⟩ source := by
    rintro _ rfl
    cases text : prepare ⟨true, passLiterals⟩ source with
    | nil =>
      have none : tokenize [] = [] := by
        rw [tokenize, Token.lexemes_nil]
        rfl
      rw [none]
      exact ⟨rfl, fun _ mem => absurd mem List.not_mem_nil⟩
    | cons c t =>
      rw [text] at free
      rw [Token.tokenize_of_tagFree free]
      exact ⟨rfl, fun x mem => List.mem_singleton.1 mem⟩
  obtain ⟨none, whole⟩ := single _ rfl
  refine ⟨fun x mem => ?_, fun x mem => ?_, .inl fun x mem => ?_⟩
  · rw [none] at mem
    cases mem
  · exact ⟨_, List.infix_rfl, (whole x mem).symm ▸ left.symm, harmless⟩
  · rw [none] at mem
    cases mem

/-- A region with mismatched delimiters that is no statement either. -/
example : isHarmless true true (cells "\x7b\x7b a %\x7d".toList) = true := by decide +kernel

end Source

namespace Engine

/-- An engine with the handlers it starts with, which finds no templates and strips the regions of the
rendering language. -/
def stripping (passLiterals : Bool) (cache : Cache) (useCache : Bool) : Engine σ :=
  { registry := baseRegistry, settings := { options := ⟨true, passLiterals⟩ }, cache, useCache }

/-! ## Compiled text -/

/-- No name of a tag has a brace or a quotation mark in it. -/
theorem plain_of_isName {name : Text} (is_name : Tag.IsName name) :
    ∀ c ∈ name, Compilation.isBraceOrQuote c = false := by
  intro c mem
  rw [Bool.eq_false_iff]
  intro strange
  have letter := is_name c mem
  rcases Compilation.isBraceOrQuote_iff.1 strange with rfl | rfl | rfl | rfl <;> cases letter

theorem eq_of_valueHandler? {tag : Text} {h : Handler σ} (found : baseRegistry.valueHandler? tag = some h) :
    h = includeHandler := by
  have single : (baseRegistry : Registry σ).valueHandler? tag
      = (([(includeTag, includeHandler)] : List (Text × Handler σ)).find? fun p => p.1 == tag).map (·.2) :=
    Option.or_none
  rw [single, List.find?_singleton] at found
  split at found <;> cases found
  rfl

/-- Include statements and nothing else is what handlers give. -/
theorem composes_baseRegistry {L : Language} {inclusion : Text → L.Part} (strict : L.Strict inclusion) (brace : Bool) :
    Compiler.Composes (σ := σ) (L.grammar.Seals (L.Plain inclusion) brace) baseRegistry where
  nil := Grammar.seals_nil _ _ brace
  append _ _ seals seals' := seals.append seals'
  value tag h found attributes raw s := by
    rw [eq_of_valueHandler? found]
    exact Language.seals_includeStatement strict attributes
  block _ _ found := nomatch found

end Engine

namespace Chain

/-- Where there are no templates, a chain is one file. -/
theorem eq_of_ofSource_alone {settings : Settings} (alone : settings.searchPath.dirs = []) {fs : FileSystem}
    {source : Text} {log : List Event} {chain : Chain}
    (built : ((ofSource settings fs none source).run log).1 = .ok chain) :
    chain = (buildFile settings {} none source).2 := by
  obtain ⟨further, follows⟩ := ofSource_eq_ok_iff.1 built
  cases follows with
  | last _ => rfl
  | next _ found _ _ _ =>
    have mem := (of_target? found).1
    rw [alone] at mem
    cases mem

/-- What is reported of a text in memory names no file, and no tag with a brace or a quotation mark in it. -/
theorem plain_of_mem_diagnostics (settings : Settings) (source : Text) :
    ∀ d ∈ (buildFile settings {} none source).2.diagnostics,
      d.file = none ∧ ∀ c ∈ d.tag, Compilation.isBraceOrQuote c = false := by
  intro d mem
  obtain ⟨d', mem', rfl⟩ := List.mem_map.1 mem
  exact ⟨rfl, fun c inside => Engine.plain_of_isName (Builder.isName_of_mem_diagnostics _ _ d' mem').2 c inside⟩

end Chain

namespace Engine

open Source (Untangled)

section Languages

variable {L : Language} {inclusion : Text → L.Part} (strict : L.Strict inclusion) {passLiterals : Bool} {source : Text}
  (untangled : Untangled passLiterals source)
include strict untangled

/-- **What is compiled from an untangled source looks nothing up.** -/
theorem within_artifact {settings : Settings} (options : settings.options = ⟨true, passLiterals⟩) (handlers : σ) :
    L.grammar.Within (L.Plain inclusion) (Compilation.artifact
      ⟨(Chain.buildFile settings {} none source).2.outputWith .text baseRegistry handlers,
        (Chain.buildFile settings {} none source).2.diagnostics⟩) := by
  let tokens := Token.tokenize (Source.prepare settings.options source)
  have shown (t : Text) : L.Plain inclusion (L.grammar.literal t) := .inl ⟨t, rfl⟩
  obtain ⟨brace, ends, starts⟩ := untangled.exists_brace
  obtain ⟨front, last, -⟩ := untangled
  rw [← options] at front last ends starts
  have whole : ∀ x ∈ Token.texts tokens.dropLast, x ∈ Token.texts tokens := fun x mem => by
    obtain ⟨t, t_mem, eq⟩ := Token.mem_texts_iff.1 mem
    exact Token.mem_texts_iff.2 ⟨t, List.dropLast_subset _ t_mem, eq⟩
  have texts : ∀ t ∈ tokens.dropLast, ∀ x, t.fragment = .text x → L.grammar.Seals (L.Plain inclusion) brace x := by
    intro t mem x eq
    have inside := Token.mem_texts_iff.2 ⟨t, mem, eq⟩
    obtain ⟨cs, stretch, rfl, harmless⟩ := front x inside
    exact Grammar.seals_kept strict.strict shown stretch harmless (ends _ inside) fun on => starts on _ (whole _ inside)
  obtain ⟨out, w, output, seals, final⟩ := Builder.exists_output_build (composes_baseRegistry strict brace) tokens
    (Source.prepare settings.options source) texts handlers
  obtain ⟨rest, eq, open_, closed, braced⟩ := Compilation.exists_artifact strict.strict shown
    ⟨(Chain.buildFile settings {} none source).2.outputWith .text baseRegistry handlers,
      (Chain.buildFile settings {} none source).2.diagnostics⟩ (Chain.plain_of_mem_diagnostics settings source)
  have safe : L.grammar.Safe (L.Plain inclusion) brace rest := ⟨closed, fun _ => braced rfl⟩
  have behind : L.grammar.Safe (L.Plain inclusion) brace (w ++ rest) := by
    rcases final with rfl | ⟨t, t_last, fragment⟩
    · exact safe
    · have mem : w ∈ Token.texts tokens.getLast?.toList :=
        Token.mem_texts_iff.2 ⟨t, Option.mem_toList.2 t_last, fragment⟩
      have mem' : w ∈ Token.texts tokens := Token.mem_texts_iff.2 ⟨t, List.mem_of_getLast? t_last, fragment⟩
      obtain ⟨cs, stretch, rfl, harmless⟩ := last w mem
      exact Grammar.safe_kept strict.strict shown stretch harmless (fun _ => open_) safe (fun _ => braced rfl) fun on =>
        starts on _ mem'
  have joined : Chain.outputWith .text baseRegistry handlers (Chain.buildFile settings {} none source).2 = out ++ w :=
    output
  rw [eq]
  show L.grammar.Within (L.Plain inclusion)
    (Chain.outputWith .text baseRegistry handlers (Chain.buildFile settings {} none source).2 ++ rest)
  rw [joined, List.append_assoc]
  exact (seals _ behind).1

theorem within_of_compileSource {cache : Cache} {useCache : Bool} {s s' : Session σ} {compilation : Compilation}
    (run : ((stripping passLiterals cache useCache).compileSource source).run s = (.ok compilation, s')) :
    L.grammar.Within (L.Plain inclusion) compilation.artifact := by
  rw [compileSource, run_bind, run_ofLogged] at run
  rcases built : (Chain.ofSource (stripping (σ := σ) passLiterals cache useCache).settings s.files none source).run []
    with ⟨err | chain, log⟩
  · rw [built] at run
    cases run
  · rw [built] at run
    cases run
    obtain rfl := Chain.eq_of_ofSource_alone rfl (congrArg Prod.fst built)
    exact within_artifact strict untangled rfl s.handlers

/-! ## Two contexts -/

end Languages

def naming (name text : Text) : Value := .record [(name, .text text)]

/-- A source with a literal, a directive, an included template and an opening delimiter that nothing closes. -/
def strippedSource : Text :=
  "Hi \x7b\x7bname\x7d\x7d, \x7b% if a %\x7d".toList ++ defining ['a'] "\x7b x \x7d".toList
    ++ "\x7b\x7btpl:".toList ++ "include src=\"t\"\x7d\x7d \x7b\x7b name".toList

theorem untangled_strippedSource : Untangled true strippedSource := by
  have stretch (n k : Nat) : ((Source.cells (Source.removeComments strippedSource)).drop n).take k
      <:+: Source.cells (Source.removeComments strippedSource) :=
    (List.take_prefix k _).isInfix.trans (List.drop_suffix n _).isInfix
  have front : Token.texts (Token.tokenize (Source.prepare ⟨true, true⟩ strippedSource)).dropLast
      = ["Hi \x7b% raw %\x7d\x7b\x7bname\x7d\x7d\x7b% endraw %\x7d, ".toList, "\x7b x \x7d".toList] := by
    decide +kernel
  have last : Token.texts (Token.tokenize (Source.prepare ⟨true, true⟩ strippedSource)).getLast?.toList
      = [" \x7b\x7b name".toList] := by decide +kernel
  refine ⟨?_, ?_, .inl (by decide +kernel)⟩
  · rw [front, List.forall_mem_cons, List.forall_mem_singleton]
    exact ⟨⟨_, stretch 0 7, by decide +kernel, by decide +kernel⟩, ⟨_, stretch 27 5, by decide +kernel, by decide +kernel⟩⟩
  · rw [last, List.forall_mem_singleton]
    exact ⟨_, stretch 45 8, by decide +kernel, by decide +kernel⟩

/-- Two braces with a tag between them that compiles to nothing. -/
def partedSource : Text := "\x7b<tpl:x/>\x7b name \x7d\x7d".toList

/-- What a source renders to when a name has a text, without literals and with them. -/
def renderings (source text : Text) : List (Option Text) :=
  [false, true].map fun passLiterals =>
    (((stripping passLiterals ⟨[]⟩ true).renderSource source (naming "name".toList text)).run
      (⟨.empty, (), []⟩ : Session Unit)).1.toOption

/-- A closing delimiter in a body that is used behind an opening one, which nothing in the source closes. -/
example : renderings (defining ['a'] "\x7d\x7d".toList ++ "\x7b\x7b name".toList ++ defining ['a'] []) "one".toList
    = [some "\x7d\x7done".toList, some "\x7d\x7done".toList] := by decide +kernel

/-- A literal with a tag in it, which is kept as two texts. -/
example : renderings ("\x7b\x7bx".toList ++ defining ['a'] "\x7b\x7bname".toList ++ "\x7d\x7d".toList
    ++ defining ['a'] [] ++ "\x7d\x7d".toList) "one".toList
    = [some "\x7d\x7d".toList, some "\x7b\x7bx\x7b\x7bname\x7d\x7done".toList] := by decide +kernel

end Engine

end TagTemplate
