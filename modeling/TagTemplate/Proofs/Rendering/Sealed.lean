/-
# Proofs.Rendering.Sealed -- texts that can stand anywhere in compiled text

What is read of a text depends on what it is followed by.  A text seals what is behind it
if it leaves that within the same kind of pieces, wherever it comes to stand.  Texts that do
so can be joined in any order (`Seals.append`); include statements do so, whatever template
they name (`seals_includeStatement`).

Where some text ends with a brace, the texts that may follow are asked to be within the kind
behind a brace too (`Safe`).

Behind the output stands nothing, or the list of diagnostics in its raw region.  Neither
closes what the output leaves open (`exists_artifact`).
-/
import TagTemplate.Handler
import TagTemplate.Proofs.Rendering.Verbatim

namespace TagTemplate

set_option autoImplicit false

open Text

namespace Piece

/-! ## Texts without a closing delimiter -/

variable {m : Char} {t rest : Text}

theorem lacks_of_not_mem (absent : '}' ∉ t) : Lacks m t := by
  rintro a b rfl
  simp at absent

theorem Lacks.append (lacks : Lacks m t) (lacks' : Lacks m rest) (apart : rest.head? ≠ some '}') :
    Lacks m (t ++ rest) := by
  intro a b split
  rcases List.append_eq_append_iff.1 split with ⟨mid, rfl, behind⟩ | ⟨mid, rfl, behind⟩
  · exact lacks' mid b behind
  · match mid with
    | [] => exact lacks' [] b behind.symm
    | [c] =>
      obtain ⟨-, rfl⟩ := List.cons.inj behind
      exact apart rfl
    | c :: d :: mid =>
      obtain ⟨rfl, tail⟩ := List.cons.inj behind
      obtain ⟨rfl, -⟩ := List.cons.inj tail
      exact lacks a mid rfl

/-- The end of a statement closes nothing else. -/
theorem lacks_statement (lead : '}' ∉ t) (other : Source.matchingMark m ≠ '%') (lacks : Lacks m rest)
    (apart : rest.head? ≠ some '}') : Lacks m (t ++ '%' :: '}' :: rest) := by
  have own : Lacks m ['%', '}'] := by
    intro a b split
    cases a with
    | nil => exact other (List.cons.inj split).1.symm
    | cons c a =>
      have long := congrArg List.length split
      simp at long
      omega
  exact (lacks_of_not_mem lead).append (own.append lacks apart) (by simp)

end Piece

/-! ## Texts within a kind of pieces -/

namespace Grammar

open Piece

variable {P : Type} {g : Grammar P} (strict : g.Strict) {kind : P → Prop} (shown : ∀ t, kind (g.literal t))

section Statements

include strict

/-- An opening delimiter that nothing closes begins nothing. -/
theorem special?_of_lacks {m : Char} {t : Text} (lacks : Lacks m t) : g.special? ('{' :: m :: t) = none := by
  rw [Option.eq_none_iff_forall_ne_some]
  rintro ⟨p, removes, rest⟩ begins
  obtain ⟨body, rfl, -⟩ := strict.closing begins
  exact lacks body rest rfl

include shown

/-- **A raw region changes nothing**, nor does a text in it that ends it early with its own end. -/
theorem within_raw {y z : Text} (ends : EndsWhole y z) (within : g.Within kind z) :
    g.Within kind (rawLead ++ (y ++ (rawEnd ++ z))) := by
  obtain ⟨body, t, until_, last⟩ := exists_untilEndraw? ends
  have begins := strict.raw (y ++ (rawEnd ++ z))
  rw [until_] at begins
  rcases last with rfl | ⟨removes, found⟩
  · exact within_of_special? rfl begins (shown _) within
  · rw [Option.bind_some, found] at begins
    exact within_of_special? rfl begins (shown _) (within_of_none rfl (strict.endraw z))

end Statements

/-! ## Joining texts -/

/-- A text within a kind, behind a brace as well if `brace` says so. -/
def Safe (g : Grammar P) (kind : P → Prop) (brace : Bool) (t : Text) : Prop :=
  g.Within kind t ∧ (brace = true → g.Within kind ('{' :: t))

/-- A text that leaves safe what is behind it. -/
def Seals (g : Grammar P) (kind : P → Prop) (brace : Bool) (t : Text) : Prop :=
  ∀ rest, g.Safe kind brace rest → g.Safe kind brace (t ++ rest)

variable {brace : Bool}

theorem seals_nil (g : Grammar P) (kind : P → Prop) (brace : Bool) : g.Seals kind brace [] := fun _ safe => safe

theorem Seals.append {s t : Text} (seals : g.Seals kind brace s) (seals' : g.Seals kind brace t) :
    g.Seals kind brace (s ++ t) := by
  intro rest safe
  rw [List.append_assoc]
  exact seals _ (seals' _ safe)

/-! ## What stands behind the output -/

/-- A text in front of which every opening delimiter begins nothing that nothing closes before it. -/
def EndsOpen (g : Grammar P) (rest : Text) : Prop :=
  ∀ m t, Source.isOpenerMark m = true → Lacks m t → g.special? ('{' :: m :: (t ++ rest)) = none

end Grammar

namespace Compilation

open Piece

variable {P : Type} {g : Grammar P} (strict : g.Strict) {kind : P → Prop} (shown : ∀ t, kind (g.literal t))
include strict

omit strict in
/-- The list of diagnostics has no quotation marks in it, nor has its raw region. -/
theorem not_isQuote_region {note : Text} (plain : ∀ c ∈ note, isBraceOrQuote c = false) :
    ∀ c ∈ " raw %\x7d".toList ++ (note ++ (rawEnd ++ ['\n'])), Expression.isQuote c = false := by
  have none : note.any Expression.isQuote = false := by
    refine List.any_eq_false.2 fun c mem => Bool.eq_false_iff.1 ?_
    have plain := plain c mem
    rw [isBraceOrQuote, Bool.or_eq_false_iff] at plain
    exact plain.2
  have all : (" raw %\x7d".toList ++ (note ++ (rawEnd ++ ['\n']))).any Expression.isQuote = false := by
    rw [List.any_append, List.any_append, none]
    decide
  exact fun c mem => Bool.eq_false_iff.2 (List.any_eq_false.1 all c mem)

omit strict in
/-- The only closing delimiters around the list of diagnostics are those of statements. -/
theorem lacks_region {note : Text} (absent : '}' ∉ note) {m : Char} (other : Source.matchingMark m ≠ '%') :
    Lacks m ('\n' :: (rawLead ++ (note ++ (rawEnd ++ ['\n'])))) := by
  have last : Lacks m (note ++ "\x7b% endraw ".toList ++ '%' :: '}' :: ['\n']) := by
    refine lacks_statement ?_ other (lacks_of_not_mem (by decide)) (by decide)
    simpa using absent
  have all : Lacks m ("\n\x7b% raw ".toList ++ '%' :: '}' :: (note ++ "\x7b% endraw ".toList ++ '%' :: '}' :: ['\n'])) := by
    refine lacks_statement (by decide) other last fun first => ?_
    cases note with
    | nil => cases first
    | cons c note =>
      obtain rfl : c = '}' := Option.some.inj first
      exact absent (List.mem_cons_self ..)
  have shape : '\n' :: (rawLead ++ (note ++ (rawEnd ++ ['\n'])))
      = "\n\x7b% raw ".toList ++ '%' :: '}' :: (note ++ "\x7b% endraw ".toList ++ '%' :: '}' :: ['\n']) := by
    rw [List.append_assoc note]
    rfl
  rwa [shape]

/-- The list of diagnostics closes nothing: no statement reaches over its opening delimiters, and it has no other
closing delimiters. -/
theorem endsOpen_region {note : Text} (plain : ∀ c ∈ note, isBraceOrQuote c = false) :
    g.EndsOpen ('\n' :: (rawLead ++ (note ++ (rawEnd ++ ['\n'])))) := by
  intro m t opener lacks
  by_cases statement : m = '%'
  · subst statement
    have before : Lacks '%' (t ++ ['\n']) := lacks.append (lacks_of_not_mem (by decide)) (by decide)
    have shape : t ++ '\n' :: (rawLead ++ (note ++ (rawEnd ++ ['\n'])))
        = t ++ ['\n'] ++ '{' :: '%' :: (" raw %\x7d".toList ++ (note ++ (rawEnd ++ ['\n']))) :=
      (List.append_assoc t ['\n'] _).symm
    rw [shape]
    exact strict.barrier before (not_isQuote_region plain)
  · have other : Source.matchingMark m ≠ '%' := by
      simp only [Source.isOpenerMark, Bool.or_eq_true, beq_iff_eq] at opener
      rcases opener with (rfl | rfl) | rfl
      · decide
      · exact absurd rfl statement
      · decide
    have absent : '}' ∉ note := fun mem => absurd (plain _ mem) (by decide)
    exact Grammar.special?_of_lacks strict (lacks.append (lacks_region absent other) (by simp))

include shown

/-- **What stands behind the output is harmless.** -/
theorem exists_artifact (c : Compilation)
    (plain : ∀ d ∈ c.diagnostics, d.file = none ∧ ∀ b ∈ d.tag, isBraceOrQuote b = false) :
    ∃ rest, c.artifact = c.output ++ rest ∧ g.EndsOpen rest ∧ g.Safe kind true rest := by
  cases faulty : c.hasErrors with
  | true =>
    rw [artifact_eq faulty]
    have quiet : ∀ b ∈ c.note, isBraceOrQuote b = false := by
      intro b mem
      rw [Bool.eq_false_iff]
      intro strange
      refine not_mem_note strange (fun d d_mem => ⟨(plain d d_mem).1, fun inside => ?_⟩) mem
      have other := (plain d d_mem).2 b inside
      rw [strange] at other
      cases other
    have opener : '{' ∉ c.note := fun mem => absurd (quiet _ mem) (by decide)
    have region : g.Within kind (rawLead ++ (c.note ++ (rawEnd ++ ['\n']))) :=
      Grammar.within_raw strict shown (endsWhole_of_not_mem opener _) (Grammar.within_char shown rfl Grammar.within_nil)
    have behind := Grammar.within_char shown (opens_of_ne (by decide : '\n' ≠ '{') _) region
    exact ⟨_, rfl, endsOpen_region strict quiet, behind, fun _ => Grammar.within_char shown rfl behind⟩
  | false =>
    refine ⟨[], ?_, fun m t _ lacks => ?_, Grammar.within_nil,
      fun _ => Grammar.within_char shown rfl Grammar.within_nil⟩
    · rw [artifact, faulty, List.append_nil]
      rfl
    · rw [List.append_nil]
      exact Grammar.special?_of_lacks strict lacks

end Compilation

namespace Language

/-! ## Include statements -/

variable {L : Language} {inclusion : Text → L.Part} (strict : L.Strict inclusion) {brace : Bool}
include strict

/-- **An include statement looks up nothing**, whatever template it names. -/
theorem seals_includeStatement (a : Attributes) : L.grammar.Seals (L.Plain inclusion) brace (includeStatement a) := by
  unfold includeStatement
  split
  · rename_i src _
    intro rest safe
    refine ⟨Grammar.within_of_special? rfl (strict.included src rest) (.inr ⟨src, rfl⟩) safe.1, fun _ => ?_⟩
    exact Grammar.within_of_none rfl (strict.strict.percent _)
  · exact Grammar.seals_nil _ _ _

end Language

end TagTemplate
