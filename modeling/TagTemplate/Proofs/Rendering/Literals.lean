/-
# Proofs.Rendering.Literals -- literals in raw regions

A source of literals is stripped to plain text and raw regions with one literal in each.
Whether the renderer reads that is decided literal by literal.

A literal without an `endraw` statement stands for itself in its raw region
(`quiet_written`), and plain text for itself wherever it is.  If all literals are of that
kind, the pieces are texts that make up the source (`Literals.shows`).

A literal with an `endraw` statement ends its region early: the statement is at the very end
of the literal, and the `endraw` that was meant to end the region begins nothing.  One such
literal and nothing is read at all (`Literals.unread`).
-/
import TagTemplate.Proofs.Rendering.Lookups
import TagTemplate.Proofs.Source.Literals

namespace TagTemplate

set_option autoImplicit false

open Text

namespace Piece

variable {t rest : Text}

/-! ## Reading from the first delimiter on -/

/-- Every piece takes at least one character. -/
theorem length_le_of_reads {removes behind : Bool} {ps : List Piece} (reads : grammar.Reads removes t ps behind) :
    ps.length ≤ t.length := by
  induction reads with
  | done => exact Nat.le_refl 0
  | space _ _ ih => exact Nat.le_succ_of_le ih
  | special delimiter begins _ ih =>
    obtain ⟨m, t, rfl⟩ := eq_cons_of_opens delimiter
    obtain ⟨body, rfl, -⟩ := closedBy_of_special? begins
    simp only [List.length_append, List.length_cons]
    omega
  | @literal c t literal _ _ _ _ _ ih =>
    have whole := congrArg List.length (untilOpener_eq (c :: t))
    rw [untilOpener_cons literal] at whole ih
    simp only [List.length_append, List.length_cons] at whole ih ⊢
    omega

/-- **A text is parsed as it reads.** -/
theorem parse?_eq_some_iff {ps : List Piece} : parse? t = some ps ↔ ∃ behind, grammar.Reads false t ps behind := by
  refine ⟨fun read => (Grammar.reads_of_parseUpTo? _ _ _ read).2, ?_⟩
  rintro ⟨behind, reads⟩
  exact reads.parseUpTo? (length_le_of_reads reads)

/-! ## Texts that show a text -/

/-- A text reads as literal texts that make up `shown`, and removes no white space in front of it. -/
def Shows (t shown : Text) : Prop :=
  ∃ ts : List Text, grammar.Reads false (untilOpener t).2 (ts.map .text) false ∧ removesBefore (untilOpener t).2 = false ∧
    shown = (untilOpener t).1 ++ ts.flatten

theorem shows_nil : Shows [] [] := ⟨[], .done false, rfl, rfl⟩

theorem Shows.char {shown : Text} (shows : Shows t shown) {c : Char} (plain : c ≠ '{') : Shows (c :: t) (c :: shown) := by
  obtain ⟨ts, reads, keeps, rfl⟩ := shows
  refine ⟨ts, ?_, ?_, ?_⟩ <;> rw [untilOpener_cons (opens_of_ne plain t)]
  · exact reads
  · exact keeps
  · rfl

theorem Shows.exists_reads {shown : Text} (shows : Shows t shown) :
    ∃ ts : List Text, grammar.Reads false t (ts.map .text) false ∧ shown = ts.flatten := by
  obtain ⟨ts, reads, keeps, rfl⟩ := shows
  by_cases lead : (untilOpener t).1 = []
  · refine ⟨ts, Grammar.reads_iff.2 ⟨_, reads, ?_⟩, ?_⟩
    · rw [if_pos lead]
    · rw [lead, List.nil_append]
  · refine ⟨(untilOpener t).1 :: ts, Grammar.reads_iff.2 ⟨_, reads, ?_⟩, List.flatten_cons.symm⟩
    rw [if_neg lead, literalText, keeps]
    rfl

/-- **A quiet text in a raw region is shown.** -/
theorem Shows.region {shown quiet : Text} (shows : Shows t shown) (is_quiet : Quiet quiet) :
    Shows (rawLead ++ (quiet ++ (rawEnd ++ t))) (quiet ++ shown) := by
  obtain ⟨ts, reads, rfl⟩ := shows.exists_reads
  exact ⟨quiet :: ts, .special rfl (Grammar.special?_of_quiet strict_grammar.toRegular is_quiet t) reads, rfl, rfl⟩

/-! ## Texts that are not read -/

def Unread (t : Text) : Prop := ∀ ps behind, ¬ grammar.Reads false t ps behind

theorem Unread.char (unread : Unread t) {c : Char} (plain : c ≠ '{') : Unread (c :: t) := by
  intro ps behind reads
  obtain ⟨qs, reads, -⟩ := Grammar.reads_iff.1 reads
  rw [untilOpener_cons (opens_of_ne plain t)] at reads
  exact unread _ _ (Grammar.reads_iff.2 ⟨qs, reads, rfl⟩)

theorem Unread.region {quiet : Text} (unread : Unread t) (is_quiet : Quiet quiet) :
    Unread (rawLead ++ (quiet ++ (rawEnd ++ t))) := by
  intro ps behind reads
  obtain ⟨p, removes, rest, qs, begins, reads, -⟩ := reads.of_opens rfl
  cases (Grammar.special?_of_quiet strict_grammar.toRegular is_quiet t).symm.trans begins
  exact unread _ _ reads

end Piece

/-! ## Literals -/

namespace Source

open Piece (rawLead rawEnd Quiet Shows Unread untilEndraw? endraw? special?_raw)

variable {s : Snippet}

/-- A literal without an `endraw` statement is quiet: it ends with a brace, and so would a statement that began in it. -/
theorem Snippet.quiet_written (none : untilEndraw? s.written = none) : Quiet s.written := by
  intro a b split nonempty u
  have closing : '}' ∈ b := by
    rw [s.written_eq] at split
    rcases List.eq_nil_or_concat b with rfl | ⟨b, c, rfl⟩
    · exact absurd rfl nonempty
    rw [List.concat_eq_append, ← List.append_assoc] at split
    obtain rfl : '}' = c := by simpa using (List.append_inj' split rfl).2
    simp
  have here := Piece.endraw?_of_untilEndraw? none split
  rw [Option.eq_none_iff_forall_ne_some]
  intro r found
  have short := Piece.isSome_endraw?_of_mem (u := u) (by rw [found]; rfl) closing
  rw [here] at short
  cases short

namespace Snippet.IsLiteral

/-- **A literal with an `endraw` statement breaks its raw region**: the statement ends with the literal, and the end of
the region begins nothing. -/
theorem unread_of_endraw (is_literal : s.IsLiteral) (some_ : untilEndraw? s.written ≠ none) (t : Text) :
    Unread (rawLead ++ (s.written ++ (rawEnd ++ t))) := by
  intro ps behind reads
  obtain ⟨p, removes, rest, qs, begins, reads, -⟩ := reads.of_opens rfl
  obtain ⟨⟨body, r⟩, found⟩ := Option.ne_none_iff_exists'.1 some_
  obtain ⟨split, ends⟩ := Piece.exists_of_untilEndraw? found
  obtain ⟨⟨removes', r'⟩, ends⟩ := Option.isSome_iff_exists.1 ends
  have nonempty : r ≠ [] := by
    rintro rfl
    cases ends
  have ends' := Piece.endraw?_append ends (rawEnd ++ t)
  have behind_literal := Piece.endsWhole_written is_literal.marks.2 is_literal.first t body r split nonempty _ _ ends'
  have region := special?_raw (s.written ++ (rawEnd ++ t))
  rw [Piece.untilEndraw?_append found, Option.bind_some, ends', behind_literal] at region
  cases region.symm.trans begins
  obtain ⟨_, _, _, _, begins, -⟩ := reads.of_opens rfl
  cases begins

end Snippet.IsLiteral

namespace Literals

variable {source : Text} {ss : List Snippet}

/-- **Quiet literals are shown as they stand in the source**, and so is the text around them. -/
theorem shows (literals : Literals source ss) (quiet : ∀ s ∈ ss, untilEndraw? s.written = none) :
    Shows (stripSnippets true source) source := by
  induction literals with
  | nil =>
    rw [stripSnippets_nil]
    exact Piece.shows_nil
  | char plain rest ih =>
    rw [stripSnippets_cons (snippet?_of_ne plain.1 _)]
    exact (ih quiet).char plain.1
  | @literal s t ss is_literal rest ih =>
    rw [stripSnippets_literal is_literal]
    have others := ih fun s mem => quiet s (List.mem_cons_of_mem _ mem)
    exact others.region (Snippet.quiet_written (quiet s (List.mem_cons_self ..)))

/-- **With an `endraw` statement in one of the literals nothing is read.** -/
theorem unread (literals : Literals source ss) (loud : ∃ s ∈ ss, untilEndraw? s.written ≠ none) :
    Unread (stripSnippets true source) := by
  induction literals with
  | nil =>
    obtain ⟨s, mem, -⟩ := loud
    cases mem
  | char plain rest ih =>
    rw [stripSnippets_cons (snippet?_of_ne plain.1 _)]
    exact (ih loud).char plain.1
  | @literal s t ss is_literal rest ih =>
    rw [stripSnippets_literal is_literal]
    by_cases here : untilEndraw? s.written = none
    · obtain ⟨s', mem, found⟩ := loud
      rcases List.mem_cons.1 mem with rfl | mem
      · exact absurd here found
      · exact (ih ⟨s', mem, found⟩).region (Snippet.quiet_written here)
    · exact is_literal.unread_of_endraw here _

end Literals

end Source

end TagTemplate
