/-
# Proofs.Rendering.Includes -- names survive being compiled

The name that an `include` tag gives is written into compiled text as a JSON literal, and
found again when that is rendered.  Nothing in a name ends the literal or the statement
early, and every escape is undone, so the statement names the same template
(`Survives`): quotation marks, backslashes and control characters are escaped, and all
else stands for itself between the quotation marks, delimiters and braces included.

Literal text around the statement stays what it is, as long as it cannot begin an opening
delimiter.
-/
import TagTemplate.Handler
import TagTemplate.Proofs.Rendering.Literals

namespace TagTemplate

set_option autoImplicit false

open Text

namespace Piece

variable {lead t : Text}

/-! ## Literal text around a delimiter -/

def ofLiteral (t : Text) : List Piece := if t = [] then [] else [.text t]

theorem untilOpener_append_of_not_mem (absent : '{' ∉ lead) (next : untilOpener t = ([], t)) :
    untilOpener (lead ++ t) = (lead, t) := by
  induction lead with
  | nil => exact next
  | cons c lead ih =>
    have plain : c ≠ '{' := fun brace => absent (brace ▸ List.mem_cons_self ..)
    rw [List.cons_append, untilOpener_cons (opens_of_ne plain _), ih fun mem => absent (List.mem_cons_of_mem c mem)]

/-- Text without braces is one literal. -/
theorem reads_ofLiteral (absent : '{' ∉ t) : grammar.Reads false t (ofLiteral t) false := by
  have whole : untilOpener t = (t, []) := by
    simpa using untilOpener_append_of_not_mem (t := []) absent rfl
  have rest : (untilOpener t).2 = [] := congrArg Prod.snd whole
  refine Grammar.reads_iff.2 ⟨[], ?_, ?_⟩
  · rw [rest]
    exact .done false
  · rw [whole, literalText_of_nowhere rest]
    rfl

/-- Literal text before an opening delimiter without a minus sign is kept as it is. -/
theorem reads_after_literal {ps : List Piece} {behind : Bool} (reads : grammar.Reads false t ps behind)
    (opener : opens t = true) (keeps : removesBefore t = false) (absent : '{' ∉ lead) :
    grammar.Reads false (lead ++ t) (ofLiteral lead ++ ps) behind := by
  have split := untilOpener_append_of_not_mem absent (untilOpener_of_opens opener)
  have kept : literalText (lead ++ t) = lead := by
    rw [literalText, split, keeps]
    rfl
  refine Grammar.reads_iff.2 ⟨ps, ?_, ?_⟩
  · rw [split]
    exact reads
  · rw [kept, split]
    unfold ofLiteral
    split <;> rfl

end Piece

/-! ## Include statements -/

/-- A compiled text includes the template of a name, and does nothing else. -/
structure Survives (src compiled : Text) : Prop where
  /-- It is a statement with a literal, which a reader of JSON takes for the name, whatever follows. -/
  written : ∃ literal, compiled = "\x7b% include ".toList ++ literal ++ " %\x7d".toList ∧
    ∀ plain : Char → Bool, (∀ c : Char, 0x20 ≤ c.toNat → plain c = true) → ∀ rest,
      Quoted.read? plain (literal ++ rest) = some (src, rest)
  /-- Between texts without braces it is read as one include, and they as themselves. -/
  parsed : ∀ before after, '{' ∉ before → '{' ∉ after → Piece.parse? (before ++ compiled ++ after)
    = some (Piece.ofLiteral before ++ .includes (.constant (.text src)) false :: Piece.ofLiteral after)
  /-- What that looks up is the name, in any context. -/
  named : ∀ context, (Expression.constant (.text src)).templates context = [some src]

theorem survives_includeStatement {a : Attributes} {src : Text} (named : a.get? "src".toList = some src) :
    Survives src (includeStatement a) where
  written := by
    refine ⟨Quoted.json src, ?_, fun plain shows rest => Quoted.read?_json shows src rest⟩
    rw [includeStatement, named]
  parsed before after plain plain' := by
    have begins : Piece.special? (includeStatement a ++ after)
        = some (.includes (.constant (.text src)) false, false, after) := by
      rw [includeStatement, named]
      exact Piece.special?_include src after
    have opener : Piece.opens (includeStatement a ++ after) = true ∧
        Piece.removesBefore (includeStatement a ++ after) = false := by
      rw [includeStatement, named]
      exact ⟨rfl, rfl⟩
    have reads := Piece.reads_after_literal (.special opener.1 begins (Piece.reads_ofLiteral plain')) opener.1 opener.2
      plain
    rw [List.append_assoc]
    exact Piece.parse?_eq_some_iff.2 ⟨_, reads⟩
  named _ := rfl

/-- **The name of an include survives being compiled**, whatever characters it has. -/
theorem survives_includeHandler {σ : Type} (a : Attributes) (raw src : Text) (named : a.get? "src".toList = some src)
    (state : σ) : ∃ compiled, (includeHandler a raw : StateM σ Text).run state = (compiled, state) ∧
      Survives src compiled :=
  ⟨includeStatement a, rfl, survives_includeStatement named⟩

def oddName : Text := "a\"\\\n\t\x00\x1f %\x7d\x7b\x7b/ä😀\x27".toList

theorem survives_oddName : (Attributes.ofPairs [("src".toList, oddName)]).get? "src".toList = some oddName ∧
    ∃ compiled, (includeHandler (Attributes.ofPairs [("src".toList, oddName)]) [] : StateM Nat Text).run 0
      = (compiled, 0) ∧ Survives oddName compiled := by
  have named : (Attributes.ofPairs [("src".toList, oddName)]).get? "src".toList = some oddName := by decide +kernel
  exact ⟨named, survives_includeHandler _ [] oddName named 0⟩

end TagTemplate
