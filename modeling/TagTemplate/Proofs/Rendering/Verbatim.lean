/-
# Proofs.Rendering.Verbatim -- a raw region behind any text

A text in which no `endraw` statement begins, whatever follows, is quiet.  In a raw
region it stands for itself (`special?_of_quiet`).  A path with a colon behind it is
quiet if there is no `endraw` statement in it, since a colon cannot be in one; texts
without an opening brace are quiet, and so is what is put together from quiet texts.

A raw region on a line of its own can be put behind any text that is read
(`Reads.append_line`).  It changes nothing about the pieces before it; the line feed is
one more piece, or is added to the literal text at the end, or is removed.  It is removed
if the last statement has a minus sign at its closing delimiter (`RemovesBehind`).
-/
import TagTemplate.Compilation
import TagTemplate.Proofs.Rendering.Delimited

namespace TagTemplate

set_option autoImplicit false

open Text

/-! ## Texts in which nothing is read -/

/-- From no place in a text on something is read, whatever follows the text. -/
def Nowhere {α : Type} (read : Text → Option α) (t : Text) : Prop :=
  ∀ a b, t = a ++ b → b ≠ [] → ∀ u, read (b ++ u) = none

theorem Nowhere.append {α : Type} {read : Text → Option α} {s t : Text} (first : Nowhere read s)
    (second : Nowhere read t) : Nowhere read (s ++ t) := by
  intro a b split nonempty u
  rcases List.append_eq_append_iff.1 split with ⟨mid, rfl, split'⟩ | ⟨mid, rfl, rfl⟩
  · exact second mid b split' nonempty u
  · cases mid with
    | nil => exact second [] t rfl nonempty u
    | cons c mid =>
      rw [List.append_assoc]
      exact first a (c :: mid) rfl (List.cons_ne_nil c mid) (t ++ u)

namespace Piece

variable {t rest : Text}

/-! ## Quiet texts -/

/-- No `endraw` statement begins in a text, whatever follows it. -/
def Quiet (t : Text) : Prop := ∀ a b, t = a ++ b → b ≠ [] → ∀ u, endraw? (b ++ u) = none

theorem quiet_of_not_mem (absent : '{' ∉ t) : Quiet t := by
  rintro a b rfl nonempty u
  rw [Option.eq_none_iff_forall_ne_some]
  rintro ⟨removes, r⟩ found
  obtain ⟨lead, split, -⟩ := exists_of_endraw? found
  cases b with
  | nil => exact nonempty rfl
  | cons c b =>
    obtain rfl : c = '{' := (List.cons.inj split).1
    exact absent (List.mem_append_right _ (List.mem_cons_self ..))

theorem Quiet.append {s : Text} (first : Quiet s) (second : Quiet t) : Quiet (s ++ t) := Nowhere.append first second

theorem quiet_flatMap {α : Type} {f : α → Text} {l : List α} (quiet : ∀ a ∈ l, Quiet (f a)) : Quiet (l.flatMap f) := by
  induction l with
  | nil => exact quiet_of_not_mem nofun
  | cons a l ih =>
    rw [List.flatMap_cons]
    exact (quiet a (List.mem_cons_self ..)).append (ih fun b mem => quiet b (List.mem_cons_of_mem a mem))

theorem endraw?_of_untilEndraw? (nowhere : untilEndraw? t = none) {a b : Text} (split : t = a ++ b) :
    endraw? b = none := by
  induction t generalizing a with
  | nil =>
    rw [(List.append_eq_nil_iff.1 split.symm).2]
    rfl
  | cons c t ih =>
    rw [untilEndraw?] at nowhere
    split at nowhere
    · cases nowhere
    · rename_i not_here
      cases a with
      | nil =>
        rw [← List.nil_append b, ← split]
        simpa using not_here
      | cons d a => exact ih (Option.map_eq_none_iff.1 nowhere) (List.cons.inj split).2

/-- A text without an `endraw` statement is quiet with a colon behind it. -/
theorem quiet_colon (nowhere : untilEndraw? t = none) : Quiet (t ++ [':']) := by
  intro a b split nonempty u
  rcases List.eq_nil_or_concat b with rfl | ⟨b, c, rfl⟩
  · exact absurd rfl nonempty
  rw [List.concat_eq_append, ← List.append_assoc] at split
  obtain ⟨split', colon⟩ := List.append_inj' split rfl
  obtain rfl : ':' = c := by simpa using colon
  rw [Option.eq_none_iff_forall_ne_some]
  rintro ⟨removes, r⟩ found
  obtain ⟨s, ends, whole⟩ := endraw?_eq_some_iff.1 found
  obtain ⟨lead, eq, -, absent⟩ := ends.exists_eq
  have absent' : ':' ∉ s := by simpa [eq] using absent
  have whole' : b ++ ':' :: u = s ++ r := by simpa using whole
  obtain ⟨r', eq'⟩ := exists_eq_append_of_not_mem absent' whole'
  have none := endraw?_of_untilEndraw? nowhere split'
  rw [eq'] at none
  rw [endraw?_eq_some_iff.2 ⟨s, ends, rfl⟩] at none
  cases none

theorem untilEndraw?_of_quiet (quiet : Quiet t) (rest : Text) :
    untilEndraw? (t ++ (rawEnd ++ rest)) = some (t, rawEnd ++ rest) := by
  induction t with
  | nil => rfl
  | cons c t ih =>
    have here : endraw? (c :: t ++ (rawEnd ++ rest)) = none := quiet [] (c :: t) rfl (List.cons_ne_nil c t) _
    have inner : Quiet t := fun a b split => quiet (c :: a) b (congrArg (c :: ·) split)
    rw [List.cons_append, untilEndraw?, ← List.cons_append, here, ih inner]
    rfl

/-! ## A line behind a text -/

/-- A line feed makes no opening delimiter with what is before it. -/
theorem opens_line (c : Char) (t u : Text) : opens (c :: (t ++ '\n' :: u)) = opens (c :: t) := by
  cases t with
  | nil =>
    by_cases brace : c = '{'
    · subst brace
      rfl
    · rw [opens_of_ne brace, opens_of_ne brace]
  | cons d t => exact opens_cons_cons c d _ t

theorem untilOpener_line {v : Text} (delimiter : opens v = true) (nowhere : (untilOpener t).2 = []) :
    untilOpener (t ++ '\n' :: v) = (t ++ ['\n'], v) := by
  induction t with
  | nil =>
    obtain ⟨m, v', rfl⟩ := eq_cons_of_opens delimiter
    rw [List.nil_append, untilOpener_cons (opens_of_ne (by decide) _), untilOpener, delimiter]
    rfl
  | cons c t ih =>
    cases literal : opens (c :: t) with
    | true =>
      rw [untilOpener, literal] at nowhere
      cases nowhere
    | false =>
      rw [untilOpener_cons literal] at nowhere
      rw [List.cons_append, untilOpener_cons ((opens_line c t v).trans literal), ih nowhere]
      rfl

theorem untilOpener_append (v : Text) (somewhere : (untilOpener t).2 ≠ []) :
    untilOpener (t ++ '\n' :: v) = ((untilOpener t).1, (untilOpener t).2 ++ '\n' :: v) := by
  induction t with
  | nil => exact absurd rfl somewhere
  | cons c t ih =>
    cases literal : opens (c :: t) with
    | true =>
      have still : opens (c :: (t ++ '\n' :: v)) = true := (opens_line c t v).trans literal
      rw [List.cons_append, untilOpener, untilOpener, literal, still]
      rfl
    | false =>
      rw [untilOpener_cons literal] at somewhere
      rw [List.cons_append, untilOpener_cons ((opens_line c t v).trans literal), untilOpener_cons literal,
        ih somewhere]

theorem removesBefore_line (delimiter : opens t = true) (v : Text) : removesBefore (t ++ '\n' :: v) = removesBefore t := by
  obtain ⟨m, t, rfl⟩ := eq_cons_of_opens delimiter
  cases t with
  | nil =>
    unfold removesBefore
    rw [delimiter, List.cons_append, opens_line, delimiter]
    rfl
  | cons c t => exact removesBefore_append (by simp) _

end Piece

/-! ## A line in compiled text -/

namespace Grammar

open Piece

variable {P : Type} {g : Grammar P} (regular : g.Regular) {t rest : Text}

section Regular

include regular

/-- **In a raw region a quiet text stands for itself.** -/
theorem special?_of_quiet (quiet : Quiet t) (rest : Text) :
    g.special? (rawLead ++ (t ++ (rawEnd ++ rest))) = some (g.literal t, false, rest) := by
  rw [regular.raw, untilEndraw?_of_quiet quiet]
  rfl

end Regular

theorem Reads.of_untilOpener {c : Char} {lead : Text} {ps : List P} {removes behind : Bool}
    (literal : opens (c :: t) = false) (kept : (removes && isSpace c) = false)
    (until_ : untilOpener (c :: t) = (lead, rest)) (reads : g.Reads false rest ps behind) :
    g.Reads removes (c :: t) (g.literal (if removesBefore rest then trimEnd lead else lead) :: ps) behind := by
  have reads' : g.Reads false (untilOpener (c :: t)).2 ps behind := by rwa [until_]
  have all := Reads.literal literal kept reads'
  rwa [literalText, until_] at all

theorem followed_append (s : Text) (ps : List P) : g.Followed s ps (ps ++ [g.literal s]) := by
  induction ps with
  | nil => exact .piece s
  | cons p ps ih => exact .behind p ih

theorem Followed.length_le {s : Text} {ps rs : List P} (followed : g.Followed s ps rs) :
    rs.length ≤ ps.length + 1 := by
  induction followed with
  | nothing => exact Nat.zero_le _
  | piece s => exact Nat.le_refl _
  | longer t s => exact Nat.le_succ _
  | behind p followed ih => exact Nat.succ_le_succ ih

/-- **A line that starts with an opening delimiter can stand behind any text.** -/
theorem Reads.append_line (regular : g.Regular) {removes behind : Bool} {ps : List P}
    (reads : g.Reads removes t ps behind) {v : Text} (delimiter : opens v = true) (keeps : removesBefore v = false)
    {qs : List P} {last : Bool} (reads' : ∀ removes, g.Reads removes v qs last) :
    ∃ rs, g.Followed (if behind then [] else ['\n']) ps rs ∧ g.Reads removes (t ++ '\n' :: v) (rs ++ qs) last := by
  induction reads with
  | done removes =>
    cases removes with
    | true => exact ⟨[], .nothing, .space (by decide) (reads' true)⟩
    | false =>
      have line : g.Reads false ('\n' :: v) _ last :=
        .of_untilOpener (opens_of_ne (by decide) v) rfl (untilOpener_line (t := []) delimiter rfl) (reads' false)
      rw [keeps] at line
      exact ⟨[g.literal ['\n']], .piece _, line⟩
  | space is_space reads ih =>
    obtain ⟨rs, followed, reads⟩ := ih
    exact ⟨rs, followed, .space is_space reads⟩
  | @special t rest opener p removes' begins removes ps behind reads ih =>
    obtain ⟨rs, followed, reads⟩ := ih
    have still : opens (t ++ '\n' :: v) = true := by
      obtain ⟨m, t, rfl⟩ := eq_cons_of_opens opener
      exact opener
    exact ⟨p :: rs, .behind p followed, .special still (regular.extent begins _) reads⟩
  | @literal c t literal removes kept ps behind reads ih =>
    have still : opens (c :: (t ++ '\n' :: v)) = false := (opens_line c t v).trans literal
    by_cases nowhere : (untilOpener (c :: t)).2 = []
    · have line : g.Reads removes (c :: (t ++ '\n' :: v)) _ last :=
        .of_untilOpener still kept (untilOpener_line delimiter nowhere) (reads' false)
      rw [keeps] at line
      rw [nowhere] at reads
      rw [literalText_of_nowhere nowhere]
      cases reads with
      | done => exact ⟨[g.literal (c :: t ++ ['\n'])], .longer _ _, line⟩
      | special opener => cases opener
    · obtain ⟨rs, followed, reads⟩ := ih
      have line : g.Reads removes (c :: (t ++ '\n' :: v)) _ last :=
        .of_untilOpener still kept (untilOpener_append v nowhere) reads
      rw [removesBefore_line (opens_untilOpener _ nowhere)] at line
      exact ⟨_, .behind _ followed, line⟩

/-! ## What removes a line -/

/-- White space behind a text is removed. -/
def RemovesBehind (g : Grammar P) (t : Text) : Prop := ∃ ps, g.Reads false t ps true

/-- A text up to a closing delimiter with a minus sign. -/
def EndsWithMinus (t gap : Text) : Prop := ∃ lead k, t = lead ++ '-' :: k :: '}' :: gap ∧ Source.isCloserMark k = true

theorem EndsWithMinus.append {gap : Text} (ends : EndsWithMinus t gap) (lead : Text) : EndsWithMinus (lead ++ t) gap := by
  obtain ⟨lead', k, rfl, mark⟩ := ends
  exact ⟨lead ++ lead', k, (List.append_assoc ..).symm, mark⟩

theorem isCloserMark_matchingMark {m : Char} {t : Text} (delimiter : opens ('{' :: m :: t) = true) :
    Source.isCloserMark (Source.matchingMark m) = true := by
  simp only [opens, Bool.or_eq_true, beq_iff_eq, or_assoc] at delimiter
  rcases delimiter with rfl | rfl | rfl <;> rfl

/-- Where white space behind is removed, there is a closing delimiter with a minus sign, with nothing but white space
behind it. -/
theorem Reads.endsWithMinus (regular : g.Regular) {removes behind : Bool} {ps : List P}
    (reads : g.Reads removes t ps behind) (removed : behind = true) :
    (removes = true ∧ ∀ c ∈ t, isSpace c = true) ∨ ∃ gap, EndsWithMinus t gap ∧ ∀ c ∈ gap, isSpace c = true := by
  induction reads with
  | done removes => exact .inl ⟨removed, nofun⟩
  | @space c is_space t ps behind reads ih =>
    rcases ih removed with ⟨-, spaces⟩ | ⟨gap, ends, spaces⟩
    · refine .inl ⟨rfl, fun d mem => ?_⟩
      rcases List.mem_cons.1 mem with rfl | mem
      · exact is_space
      · exact spaces d mem
    · exact .inr ⟨gap, ends.append [c], spaces⟩
  | @special t rest opener p removes' begins removes ps behind reads ih =>
    obtain ⟨m, t, rfl⟩ := eq_cons_of_opens opener
    obtain ⟨body, rfl, sign⟩ := regular.closing begins
    rcases ih removed with ⟨rfl, spaces⟩ | ⟨gap, ends, spaces⟩
    · obtain ⟨body, rfl⟩ := List.getLast?_eq_some_iff.1 (sign rfl)
      refine .inr ⟨rest, ⟨'{' :: m :: body, _, ?_, isCloserMark_matchingMark opener⟩, spaces⟩
      simp
    · refine .inr ⟨gap, ?_, spaces⟩
      exact (ends.append [Source.matchingMark m, '}']).append ('{' :: m :: body)
  | @literal c t literal removes kept ps behind reads ih =>
    rcases ih removed with ⟨none, -⟩ | ⟨gap, ends, spaces⟩
    · cases none
    · rw [untilOpener_eq (c :: t)]
      exact .inr ⟨gap, ends.append _, spaces⟩

/-- **A text that removes white space behind it** ends with a closing delimiter with a minus sign, or in white
space behind that. -/
theorem exists_of_removesBehind (regular : g.Regular) (removed : g.RemovesBehind t) :
    ∃ gap, EndsWithMinus t gap ∧ ∀ c ∈ gap, isSpace c = true := by
  obtain ⟨ps, reads⟩ := removed
  rcases reads.endsWithMinus regular rfl with ⟨none, -⟩ | ends
  · cases none
  · exact ends

end Grammar

namespace Compilation

open Piece

/-! ## The list of diagnostics -/

def isBraceOrQuote (c : Char) : Bool := c == '{' || c == '}' || Expression.isQuote c

theorem isBraceOrQuote_iff {c : Char} :
    isBraceOrQuote c = true ↔ c = '{' ∨ c = '}' ∨ c = '"' ∨ c = '\x27' := by
  simp [isBraceOrQuote, Expression.isQuote, or_assoc]

section BraceOrQuote

variable {b : Char} (strange : isBraceOrQuote b = true)
include strange

theorem not_mem_decimal (n : Nat) : b ∉ decimal n := by
  intro mem
  have digit := Nat.isDigit_of_mem_toDigits (by decide) (by decide) mem
  rcases isBraceOrQuote_iff.1 strange with rfl | rfl | rfl | rfl <;> cases digit

theorem not_mem_line {d : Diagnostic} (memory : d.file = none) (tag : b ∉ d.tag) : b ∉ d.line := by
  have colon : b ≠ ':' := by rcases isBraceOrQuote_iff.1 strange with rfl | rfl | rfl | rfl <;> decide
  have message : b ∉ d.message := by
    unfold Diagnostic.message
    split <;> simp only [List.mem_append, not_or] <;>
      exact ⟨⟨by rcases isBraceOrQuote_iff.1 strange with rfl | rfl | rfl | rfl <;> decide, tag⟩,
        by rcases isBraceOrQuote_iff.1 strange with rfl | rfl | rfl | rfl <;> decide⟩
  have separator : b ∉ ": ".toList := by rcases isBraceOrQuote_iff.1 strange with rfl | rfl | rfl | rfl <;> decide
  rw [Diagnostic.line, memory]
  simp only [List.nil_append, List.append_assoc, List.cons_append, List.mem_append, List.mem_cons, not_or]
  exact ⟨not_mem_decimal strange _, colon, not_mem_decimal strange _, separator, message⟩

/-- **The list of diagnostics of a file in memory has no braces or quotation marks** but those in the names of tags. -/
theorem not_mem_note {c : Compilation} (plain : ∀ d ∈ c.diagnostics, d.file = none ∧ b ∉ d.tag) : b ∉ c.note := by
  have line_end : b ≠ '\n' := by rcases isBraceOrQuote_iff.1 strange with rfl | rfl | rfl | rfl <;> decide
  have lines : b ∉ c.diagnostics.flatMap fun d => d.line ++ ['\n'] := by
    intro mem
    obtain ⟨d, d_mem, mem⟩ := List.mem_flatMap.1 mem
    rcases List.mem_append.1 mem with mem | mem
    · exact not_mem_line strange (plain d d_mem).1 (plain d d_mem).2 mem
    · exact line_end (List.mem_singleton.1 mem)
  have first : b ∉ "<!-- tagtpl: ".toList := by
    rcases isBraceOrQuote_iff.1 strange with rfl | rfl | rfl | rfl <;> decide
  have second : b ∉ " template error(s)\n".toList := by
    rcases isBraceOrQuote_iff.1 strange with rfl | rfl | rfl | rfl <;> decide
  have last : b ∉ "-->".toList := by rcases isBraceOrQuote_iff.1 strange with rfl | rfl | rfl | rfl <;> decide
  unfold note
  rw [List.mem_append, List.mem_append, List.mem_append, List.mem_append]
  rintro ((((mem | mem) | mem) | mem) | mem)
  · exact first mem
  · exact not_mem_decimal strange _ mem
  · exact second mem
  · exact lines mem
  · exact last mem

end BraceOrQuote

theorem line_eq {d : Diagnostic} {f : Location} (file : d.file = some f) :
    d.line = f.written ++ [':'] ++ { d with file := none }.line := by
  rw [Diagnostic.line, file]
  simp [Diagnostic.line, Diagnostic.message]

/-- The line of a diagnostic is quiet, unless the path of its file holds an `endraw` statement. -/
theorem quiet_line {d : Diagnostic} (tag : '{' ∉ d.tag) (path : ∀ f, d.file = some f → untilEndraw? f.written = none) :
    Quiet d.line := by
  cases file : d.file with
  | none => exact quiet_of_not_mem (not_mem_line rfl file tag)
  | some f =>
    rw [line_eq file]
    exact (quiet_colon (path f file)).append (quiet_of_not_mem (not_mem_line rfl rfl tag))

theorem quiet_note {c : Compilation} (tags : ∀ d ∈ c.diagnostics, '{' ∉ d.tag)
    (paths : ∀ d ∈ c.diagnostics, ∀ f, d.file = some f → untilEndraw? f.written = none) : Quiet c.note := by
  have digits : '{' ∉ decimal c.diagnostics.length := not_mem_decimal rfl _
  have lines : Quiet (c.diagnostics.flatMap fun d => d.line ++ ['\n']) :=
    quiet_flatMap fun d mem => (quiet_line (tags d mem) (paths d mem)).append (quiet_of_not_mem (by decide))
  have first : Quiet ("<!-- tagtpl: ".toList ++ decimal c.diagnostics.length ++ " template error(s)\n".toList) := by
    refine quiet_of_not_mem fun mem => ?_
    rcases List.mem_append.1 mem with mem | mem
    · rcases List.mem_append.1 mem with mem | mem
      · revert mem
        decide
      · exact digits mem
    · revert mem
      decide
  exact (first.append lines).append (quiet_of_not_mem (by decide))

theorem artifact_eq {c : Compilation} (faulty : c.hasErrors = true) :
    c.artifact = c.output ++ '\n' :: (rawLead ++ (c.note ++ (rawEnd ++ ['\n']))) := by
  rw [artifact, if_pos faulty, show "\n\x7b% raw %\x7d".toList = '\n' :: rawLead from rfl,
    show "\x7b% endraw %\x7d\n".toList = rawEnd ++ ['\n'] from rfl]
  simp only [List.append_assoc, List.cons_append]

/-- **The artifact reads as the output, a line feed and the list of diagnostics.** -/
theorem parse?_artifact {P : Type} {g : Grammar P} (regular : g.Regular) {c : Compilation} (faulty : c.hasErrors = true)
    (quiet : Quiet c.note) {ps : List P} (read : g.parse? c.output = some ps) :
    ∃ behind rs, (behind = true ↔ g.RemovesBehind c.output) ∧ g.Followed (if behind then [] else ['\n']) ps rs ∧
      g.parse? c.artifact = some (rs ++ [g.literal c.note, g.literal ['\n']]) := by
  obtain ⟨short, behind, reads⟩ := Grammar.reads_of_parseUpTo? _ _ _ read
  have region (removes : Bool) : g.Reads removes (rawLead ++ (c.note ++ (rawEnd ++ ['\n'])))
      [g.literal c.note, g.literal ['\n']] false :=
    .special rfl (Grammar.special?_of_quiet regular quiet ['\n']) (.literal rfl rfl (.done false))
  obtain ⟨rs, followed, reads'⟩ := reads.append_line regular rfl rfl region
  refine ⟨behind, rs, ⟨?_, ?_⟩, followed, ?_⟩
  · rintro rfl
    exact ⟨ps, reads⟩
  · rintro ⟨ps', reads'⟩
    exact (reads.unique reads').2
  · rw [artifact_eq faulty]
    refine reads'.parseUpTo? ?_
    have := followed.length_le
    have lead : rawLead.length = 9 := rfl
    simp only [List.length_append, List.length_cons, List.length_nil]
    omega

end Compilation

end TagTemplate
