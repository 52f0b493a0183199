/-
# Proofs.Source.Literals -- sources of plain text and literals

A literal is a region of the rendering language whose own closer is the first closer in it,
and which is neither a directive nor anything a tag or a comment could begin in
(`Snippet.IsLiteral`).  Stripping that passes literals puts each of them into a raw region
and leaves the plain text around them alone (`Literals.stripSnippets_literal`).

A tag opener has no closing brace, and so has a comment opener.  Literals and the delimiters
of raw regions end in one, so whatever began in one of them would be in it altogether.
Hence nothing is cut out as a comment (`Literals.prepare`), and all of the prepared text is
one text for the scanner (`Literals.tokenize`).
-/
import TagTemplate.Proofs.Rendering.Verbatim
import TagTemplate.Proofs.Source.ValueTags
import TagTemplate.Proofs.Token.Printing

namespace TagTemplate

set_option autoImplicit false

open Text

/-- What has no character of a kind stands in front of such a character or behind it. -/
theorem infix_or_of_not_mem {needle s t : Text} {k : Char} (absent : k ∉ needle) (inside : needle <:+: s ++ k :: t) :
    needle <:+: s ∨ needle <:+: t := by
  obtain ⟨a, b, split⟩ := inside
  rw [List.append_assoc] at split
  rcases List.append_eq_append_iff.1 split with ⟨mid, rfl, split'⟩ | ⟨mid, rfl, split'⟩
  · obtain ⟨more, rfl⟩ := Piece.exists_eq_append_of_not_mem absent split'.symm
    exact .inl ⟨a, more, List.append_assoc ..⟩
  · cases mid with
    | nil =>
      obtain ⟨more, eq⟩ := Piece.exists_eq_append_of_not_mem (t := []) absent split'
      rw [(List.append_eq_nil_iff.1 eq.symm).1]
      exact .inl (List.nil_infix ..)
    | cons c mid =>
      obtain ⟨rfl, rfl⟩ := List.cons.inj split'
      exact .inr ⟨mid, b, List.append_assoc ..⟩

/-- No tag begins in a text that ends with a closing brace and has no name of a tag. -/
theorem nowhere_scan?_concat {t : Text} (noTag : ¬ "tpl:".toList <:+: t) : Nowhere Tag.scan? (t ++ ['}']) := by
  intro a b split nonempty u
  rw [Option.eq_none_iff_forall_ne_some]
  rintro ⟨tag, rest⟩ found
  obtain ⟨lead, mem, more, eq⟩ := (Tag.scan?_eq_some_iff.1 found).lead
  rcases List.eq_nil_or_concat b with rfl | ⟨b, c, rfl⟩
  · exact nonempty rfl
  rw [List.concat_eq_append, ← List.append_assoc] at split
  obtain ⟨rfl, closing⟩ := List.append_inj' split rfl
  obtain rfl : '}' = c := by simpa using closing
  have facts : ∀ lead ∈ Tag.leads, '}' ∉ lead ∧ "tpl:".toList <:+: lead := by decide
  obtain ⟨open_, named⟩ := facts lead mem
  rw [List.concat_eq_append, List.append_assoc] at eq
  obtain ⟨_, rfl⟩ := Piece.exists_eq_append_of_not_mem open_ eq.symm
  exact noTag (named.trans ⟨a, _, List.append_assoc ..⟩)

theorem nowhere_scan?_singleton {c : Char} (plain : c ≠ '{' ∧ c ≠ '<') : Nowhere Tag.scan? [c] := by
  intro a b split nonempty u
  obtain ⟨rfl, rfl⟩ : a = [] ∧ b = [c] := by
    rcases List.append_eq_singleton_iff.1 split.symm with ⟨rfl, rfl⟩ | ⟨-, rfl⟩
    · exact ⟨rfl, rfl⟩
    · exact absurd rfl nonempty
  rw [Option.eq_none_iff_forall_ne_some]
  rintro ⟨tag, rest⟩ found
  rcases Tag.head?_of_written (Tag.scan?_eq_some_iff.1 found) with head | head
  · exact plain.1 (Option.some.inj head)
  · exact plain.2 (Option.some.inj head)

theorem Token.tagFree_of_nowhere {t : Text} (nowhere : Nowhere Tag.scan? t) : TagFree t := by
  intro a b split
  cases b with
  | nil => rfl
  | cons c b => simpa using nowhere a (c :: b) split (List.cons_ne_nil c b) []

namespace Source

open Piece (rawLead rawEnd)

/-! ## Literals -/

/-- A region with matching delimiters that is neither a comment nor a directive; no closer stands in it before its own,
and neither the name of a tag nor the opener of a comment. -/
structure Snippet.IsLiteral (s : Snippet) : Prop where
  opener : s.opener = '{' ∨ s.opener = '%'
  closer : s.closer = matchingMark s.opener
  first : Unclosed (s.body ++ [s.closer])
  start : startsWith (fun c => isSpace c || c == '-' || c == '+') s.body = false
  noTag : ¬ "tpl:".toList <:+: s.body
  noComment : ¬ commentOpener <:+: s.body

/-- A source of characters that are neither braces nor angle brackets, and the literals between them. -/
inductive Literals : Text → List Snippet → Prop where
  | nil : Literals [] []
  | char {c : Char} {t : Text} {ss : List Snippet} (plain : c ≠ '{' ∧ c ≠ '}' ∧ c ≠ '<') (rest : Literals t ss) :
      Literals (c :: t) ss
  | literal {s : Snippet} {t : Text} {ss : List Snippet} (is_literal : s.IsLiteral) (rest : Literals t ss) :
      Literals (s.written ++ t) (s :: ss)

namespace Snippet.IsLiteral

variable {s : Snippet} (is_literal : s.IsLiteral)

include is_literal

theorem marks : isOpenerMark s.opener = true ∧ isCloserMark s.closer = true := by
  rw [is_literal.closer]
  rcases is_literal.opener with eq | eq <;> simp [eq, isOpenerMark, isCloserMark, matchingMark]

theorem snippet? (t : Text) : Source.snippet? (s.written ++ t) = some (s, t) :=
  snippet?_eq_some_iff.2 ⟨rfl, is_literal.marks.1, is_literal.marks.2, is_literal.first⟩

/-- **A literal that is passed** stands in a raw region. -/
theorem replacement : s.replacement true = rawLead ++ s.written ++ rawEnd := by
  have known : s.isForeign = false := isForeign_of_matching is_literal.closer is_literal.noTag
  have literal : s.isDirective = false := by
    unfold isDirective
    rw [is_literal.start]
    rcases is_literal.opener with eq | eq <;> simp [eq]
  unfold Snippet.replacement
  rw [known, literal]
  rfl

/-- What has none of the characters of delimiters stands in the body of a literal, or behind it. -/
theorem infix_body {needle t : Text} (nonempty : needle ≠ []) (plain : '{' ∉ needle ∧ '%' ∉ needle ∧ '}' ∉ needle)
    (inside : needle <:+: s.written ++ t) : needle <:+: s.body ∨ needle <:+: t := by
  have behind {k : Char} {u : Text} (absent : k ∉ needle) (inside : needle <:+: k :: u) : needle <:+: u :=
    (infix_or_of_not_mem (s := []) absent inside).resolve_left fun none => nonempty (List.eq_nil_of_infix_nil none)
  have opener : s.opener ∉ needle := by rcases is_literal.opener with eq | eq <;> simp [eq, plain]
  have closer : s.closer ∉ needle := by
    rw [is_literal.closer]
    rcases is_literal.opener with eq | eq <;> simp [eq, plain, matchingMark]
  have shape : s.written ++ t = '{' :: s.opener :: (s.body ++ s.closer :: '}' :: t) := by simp [written]
  rw [shape] at inside
  exact (infix_or_of_not_mem closer (behind opener (behind plain.1 inside))).imp_right (behind plain.2.2)

theorem noTag_written : ¬ "tpl:".toList <:+: s.written := by
  intro inside
  rw [← List.append_nil s.written] at inside
  rcases is_literal.infix_body (by decide) (by decide) inside with body | none
  · exact is_literal.noTag body
  · cases List.eq_nil_of_infix_nil none

end Snippet.IsLiteral

theorem Snippet.written_eq (s : Snippet) : s.written = '{' :: s.opener :: s.body ++ [s.closer] ++ ['}'] := by
  simp [written]

namespace Literals

theorem plain {front t : Text} {ss : List Snippet} (plain : ∀ c ∈ front, c ≠ '{' ∧ c ≠ '}' ∧ c ≠ '<')
    (rest : Literals t ss) : Literals (front ++ t) ss := by
  induction front with
  | nil => exact rest
  | cons c front ih =>
    exact .char (plain c (List.mem_cons_self ..)) (ih fun d mem => plain d (List.mem_cons_of_mem _ mem))

/-! ## The prepared text -/

theorem stripSnippets_literal {s : Snippet} (is_literal : s.IsLiteral) (t : Text) :
    stripSnippets true (s.written ++ t) = rawLead ++ (s.written ++ (rawEnd ++ stripSnippets true t)) := by
  rw [stripSnippets_of_snippet? (is_literal.snippet? t), is_literal.replacement]
  simp only [List.append_assoc]

theorem noComment {source : Text} {ss : List Snippet} (literals : Literals source ss) :
    ¬ commentOpener <:+: source := by
  induction literals with
  | nil =>
    intro none
    cases List.eq_nil_of_infix_nil none
  | char plain rest ih =>
    intro inside
    rcases List.infix_cons_iff.1 inside with ⟨more, eq⟩ | behind
    · exact plain.2.2 (List.cons.inj eq).1.symm
    · exact ih behind
  | literal is_literal rest ih =>
    intro inside
    rcases is_literal.infix_body (by decide) (by decide) inside with body | behind
    · exact is_literal.noComment body
    · exact ih behind

/-- Nothing but stripping happens to a source of literals. -/
theorem prepare {source : Text} {ss : List Snippet} (literals : Literals source ss) :
    Source.prepare ⟨true, true⟩ source = stripSnippets true source := by
  unfold Source.prepare
  rw [removeComments_of_free literals.noComment]
  rfl

theorem nowhere_scan? {source : Text} {ss : List Snippet} (literals : Literals source ss) :
    Nowhere Tag.scan? (stripSnippets true source) := by
  induction literals with
  | nil =>
    rw [stripSnippets_nil]
    intro a b split nonempty
    exact absurd (List.append_eq_nil_iff.1 split.symm).2 nonempty
  | @char c t ss plain rest ih =>
    rw [stripSnippets_cons (snippet?_of_ne plain.1 t)]
    exact (nowhere_scan?_singleton ⟨plain.1, plain.2.2⟩).append ih
  | @literal s t ss is_literal rest ih =>
    have lead : Nowhere Tag.scan? rawLead := nowhere_scan?_concat (t := "\x7b% raw %".toList) (by decide)
    have tail : Nowhere Tag.scan? rawEnd := nowhere_scan?_concat (t := "\x7b% endraw %".toList) (by decide)
    have written : Nowhere Tag.scan? s.written := by
      rw [s.written_eq]
      refine nowhere_scan?_concat fun inside => is_literal.noTag_written ?_
      rw [s.written_eq]
      exact inside.trans (List.prefix_append ..).isInfix
    rw [stripSnippets_literal is_literal]
    exact lead.append (written.append (tail.append ih))

/-- **The prepared text of a source of literals is one text**, if there is anything in it. -/
theorem tokenize {source : Text} {ss : List Snippet} (literals : Literals source ss) :
    Token.tokenize (Source.prepare ⟨true, true⟩ source)
      = (if stripSnippets true source = [] then [] else
          [⟨.text (stripSnippets true source), 0, size (stripSnippets true source)⟩]) := by
  rw [literals.prepare]
  have free := Token.tagFree_of_nowhere literals.nowhere_scan?
  cases stripped : stripSnippets true source with
  | nil =>
    rw [Token.tokenize, Token.lexemes_nil]
    rfl
  | cons c t =>
    rw [stripped] at free
    rw [if_neg (List.cons_ne_nil c t), Token.tokenize_of_tagFree free, Nat.zero_add]

end Literals

end Source

end TagTemplate
