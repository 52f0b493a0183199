/-
# Proofs.Rendering -- compiled text as a grammar reads it

What `Grammar.parseUpTo?` does is told without a count by `Grammar.Reads`, which also says how
a text ends: whether white space behind it is removed.  A text is read in one way at most
(`Reads.unique`).

A text is read within some kind of pieces if it is read into pieces of that kind only, or
not at all (`Within`).  Literal text in front of such a text leaves it so, as long as no
opening delimiter comes about where the two meet (`within_char`), and so does a piece of
that kind.
-/
import TagTemplate.Rendering.Language

namespace TagTemplate

set_option autoImplicit false

open Text

/-! ## Delimiters -/

namespace Piece

theorem isSpace_brace : isSpace '{' = false := by decide

theorem eq_cons_of_opens {t : Text} (delimiter : opens t = true) : ∃ m t', t = '{' :: m :: t' := by
  unfold opens at delimiter
  split at delimiter
  · exact ⟨_, _, rfl⟩
  · cases delimiter

theorem opens_of_ne {c : Char} (ne : c ≠ '{') (t : Text) : opens (c :: t) = false := by
  unfold opens
  split
  · rename_i eq
    exact absurd (List.cons.inj eq).1 ne
  · rfl

/-- Two characters decide whether an opening delimiter stands at a place. -/
theorem opens_cons_cons (c d : Char) (t t' : Text) : opens (c :: d :: t) = opens (c :: d :: t') := by
  by_cases brace : c = '{'
  · rw [brace, opens, opens]
  · rw [opens_of_ne brace, opens_of_ne brace]

theorem untilOpener_cons {c : Char} {t : Text} (literal : opens (c :: t) = false) :
    untilOpener (c :: t) = (c :: (untilOpener t).1, (untilOpener t).2) := by
  rw [untilOpener, literal]
  rfl

theorem untilOpener_of_opens {t : Text} (opener : opens t = true) : untilOpener t = ([], t) := by
  obtain ⟨m, t', rfl⟩ := eq_cons_of_opens opener
  rw [untilOpener, opener]
  rfl

theorem untilOpener_eq (t : Text) : t = (untilOpener t).1 ++ (untilOpener t).2 := by
  induction t with
  | nil => rfl
  | cons c t ih =>
    cases literal : opens (c :: t) with
    | true => rw [untilOpener_of_opens literal, List.nil_append]
    | false => rw [untilOpener_cons literal, List.cons_append, ← ih]

theorem opens_untilOpener (t : Text) (found : (untilOpener t).2 ≠ []) : opens (untilOpener t).2 = true := by
  induction t with
  | nil => exact absurd rfl found
  | cons c t ih =>
    cases literal : opens (c :: t) with
    | true => rwa [untilOpener_of_opens literal]
    | false =>
      rw [untilOpener_cons literal] at found ⊢
      exact ih found

def literalText (t : Text) : Text :=
  if removesBefore (untilOpener t).2 then trimEnd (untilOpener t).1 else (untilOpener t).1

theorem literalText_of_nowhere {t : Text} (nowhere : (untilOpener t).2 = []) : literalText t = t := by
  have whole := untilOpener_eq t
  rw [nowhere, List.append_nil] at whole
  rw [literalText, nowhere, ← whole]
  rfl

end Piece

namespace Grammar

open Piece

variable {P : Type} (g : Grammar P)

/-! ## Reading with a count -/

/-- White space in front of a text may be removed. -/
theorem parseUpTo?_space {c : Char} (space : isSpace c = true) (count : Nat) (t : Text) :
    g.parseUpTo? count true (c :: t) = g.parseUpTo? count true t := by
  rw [parseUpTo?.eq_def, parseUpTo?.eq_def _ count true t]
  dsimp only
  rw [if_pos rfl, if_pos rfl, List.dropWhile_cons_of_pos space]

/-- A text that starts with an opening delimiter is read from there, or not at all. -/
theorem parseUpTo?_of_opens {t : Text} (delimiter : opens t = true) (count : Nat) (removes : Bool) :
    g.parseUpTo? (count + 1) removes t =
      match g.special? t with
      | some (p, removes, rest) => (g.parseUpTo? count removes rest).map (p :: ·)
      | none => none := by
  obtain ⟨m, t', rfl⟩ := eq_cons_of_opens delimiter
  have same : (if removes then ('{' :: m :: t').dropWhile isSpace else '{' :: m :: t') = '{' :: m :: t' := by
    cases removes <;> rfl
  rw [parseUpTo?.eq_def]
  dsimp only
  rw [same]
  exact if_pos delimiter

theorem parseUpTo?_literalText {c : Char} {t : Text} (literal : opens (c :: t) = false) (count : Nat) (removes : Bool)
    (kept : (removes && isSpace c) = false) :
    g.parseUpTo? (count + 1) removes (c :: t)
      = (g.parseUpTo? count false (untilOpener (c :: t)).2).map (g.literal (literalText (c :: t)) :: ·) := by
  have same : (if removes then (c :: t).dropWhile isSpace else c :: t) = c :: t := by
    cases removes with
    | false => rfl
    | true => exact List.dropWhile_cons_of_neg (by simpa using kept)
  rw [parseUpTo?.eq_def]
  dsimp only
  rw [same]
  exact if_neg (by simp [literal])

theorem parseUpTo?_zero {c : Char} {t : Text} {removes : Bool} (kept : (removes && isSpace c) = false) :
    g.parseUpTo? 0 removes (c :: t) = none := by
  cases removes with
  | false => rfl
  | true =>
    have same : (c :: t).dropWhile isSpace = c :: t := List.dropWhile_cons_of_neg (by simpa using kept)
    rw [parseUpTo?.eq_def]
    dsimp only
    rw [if_pos rfl, same]

/-! ## Reading without a count -/

/-- What a text reads as, and whether white space behind it is removed.  `removes` says whether leading white
space is. -/
inductive Reads : Bool → Text → List P → Bool → Prop where
  | done (removes : Bool) : Reads removes [] [] removes
  | space {c : Char} (space : isSpace c = true) {t : Text} {ps : List P} {behind : Bool}
      (reads : Reads true t ps behind) : Reads true (c :: t) ps behind
  | special {t rest : Text} (delimiter : opens t = true) {p : P} {removes' : Bool}
      (begins : g.special? t = some (p, removes', rest)) {removes : Bool} {ps : List P} {behind : Bool}
      (reads : Reads removes' rest ps behind) : Reads removes t (p :: ps) behind
  | literal {c : Char} {t : Text} (literal : opens (c :: t) = false) {removes : Bool}
      (kept : (removes && isSpace c) = false) {ps : List P} {behind : Bool}
      (reads : Reads false (untilOpener (c :: t)).2 ps behind) :
      Reads removes (c :: t) (g.literal (literalText (c :: t)) :: ps) behind

variable {g} {t : Text}

theorem reads_of_parseUpTo? (count : Nat) (removes : Bool) (t : Text) {ps : List P}
    (read : g.parseUpTo? count removes t = some ps) : ps.length ≤ count ∧ ∃ behind, g.Reads removes t ps behind := by
  match t, count with
  | [], count =>
    have nothing : g.parseUpTo? count removes [] = some [] := by cases count <;> cases removes <;> rfl
    rw [nothing] at read
    cases read
    exact ⟨Nat.zero_le _, removes, .done removes⟩
  | c :: t, count =>
    cases dropped : removes && isSpace c with
    | true =>
      obtain ⟨rfl, is_space⟩ := Bool.and_eq_true_iff.1 dropped
      rw [parseUpTo?_space _ is_space] at read
      obtain ⟨short, behind, reads⟩ := reads_of_parseUpTo? count true t read
      exact ⟨short, behind, .space is_space reads⟩
    | false =>
      match count with
      | 0 =>
        rw [parseUpTo?_zero _ dropped] at read
        cases read
      | count + 1 =>
        cases literal : opens (c :: t) with
        | true =>
          rw [parseUpTo?_of_opens _ literal] at read
          split at read
          · rename_i p removes' rest begins
            obtain ⟨ps, read', rfl⟩ := Option.map_eq_some_iff.1 read
            obtain ⟨short, behind, reads⟩ := reads_of_parseUpTo? count removes' rest read'
            exact ⟨Nat.succ_le_succ short, behind, .special literal begins reads⟩
          · cases read
        | false =>
          rw [parseUpTo?_literalText _ literal count removes dropped] at read
          obtain ⟨ps, read', rfl⟩ := Option.map_eq_some_iff.1 read
          obtain ⟨short, behind, reads⟩ := reads_of_parseUpTo? count false _ read'
          exact ⟨Nat.succ_le_succ short, behind, .literal literal dropped reads⟩
termination_by (count, t.length)

theorem Reads.parseUpTo? {removes behind : Bool} {ps : List P} (reads : g.Reads removes t ps behind) {count : Nat}
    (enough : ps.length ≤ count) : g.parseUpTo? count removes t = some ps := by
  induction reads generalizing count with
  | done removes => cases count <;> cases removes <;> rfl
  | space space reads ih => rw [parseUpTo?_space _ space, ih enough]
  | special delimiter begins reads ih =>
    obtain ⟨count, rfl⟩ := Nat.exists_eq_add_of_le' (Nat.le_trans (Nat.le_add_left 1 _) enough)
    rw [parseUpTo?_of_opens _ delimiter, begins]
    dsimp only
    rw [ih (Nat.le_of_succ_le_succ enough)]
    rfl
  | literal literal kept reads ih =>
    obtain ⟨count, rfl⟩ := Nat.exists_eq_add_of_le' (Nat.le_trans (Nat.le_add_left 1 _) enough)
    rw [parseUpTo?_literalText _ literal count _ kept, ih (Nat.le_of_succ_le_succ enough)]
    rfl

/-- No white space starts with a brace. -/
theorem not_isSpace_of_opens {c : Char} (opener : opens (c :: t) = true) : ¬ isSpace c = true := by
  obtain ⟨m, t', eq⟩ := eq_cons_of_opens opener
  rw [(List.cons.inj eq).1, isSpace_brace]
  exact Bool.false_ne_true

/-- **A text is read in one way at most.** -/
theorem Reads.unique {removes behind behind' : Bool} {ps ps' : List P} (reads : g.Reads removes t ps behind)
    (reads' : g.Reads removes t ps' behind') : ps = ps' ∧ behind = behind' := by
  induction reads generalizing ps' with
  | done removes =>
    cases reads' with
    | done => exact ⟨rfl, rfl⟩
    | special opener => cases opener
  | space is_space reads ih =>
    cases reads' with
    | space _ reads' => exact ih reads'
    | special opener => exact absurd is_space (not_isSpace_of_opens opener)
    | literal _ kept =>
      rw [is_space] at kept
      cases kept
  | special opener begins reads ih =>
    cases reads' with
    | done => cases opener
    | space is_space => exact absurd is_space (not_isSpace_of_opens opener)
    | special _ begins' reads' =>
      cases begins.symm.trans begins'
      obtain ⟨rfl, rfl⟩ := ih reads'
      exact ⟨rfl, rfl⟩
    | literal literal =>
      rw [opener] at literal
      cases literal
  | literal literal kept reads ih =>
    cases reads' with
    | space is_space =>
      rw [is_space] at kept
      cases kept
    | special opener =>
      rw [literal] at opener
      cases opener
    | literal _ _ reads' =>
      obtain ⟨rfl, rfl⟩ := ih reads'
      exact ⟨rfl, rfl⟩

/-- What is read from an opening delimiter on begins with what the delimiter begins. -/
theorem Reads.of_opens {removes behind : Bool} {ps : List P} (reads : g.Reads removes t ps behind)
    (opener : opens t = true) :
    ∃ p removes' rest qs, g.special? t = some (p, removes', rest) ∧ g.Reads removes' rest qs behind ∧ ps = p :: qs := by
  cases reads with
  | done => cases opener
  | space is_space => exact absurd is_space (not_isSpace_of_opens opener)
  | special _ begins reads => exact ⟨_, _, _, _, begins, reads, rfl⟩
  | literal literal =>
    rw [opener] at literal
    cases literal

/-- The literal text in front is the first piece, if there is any, and the others are read behind it. -/
theorem reads_iff {ps : List P} {behind : Bool} :
    g.Reads false t ps behind ↔ ∃ qs, g.Reads false (untilOpener t).2 qs behind ∧
      ps = if (untilOpener t).1 = [] then qs else g.literal (literalText t) :: qs := by
  cases t with
  | nil => simp [untilOpener]
  | cons c t =>
    cases literal : opens (c :: t) with
    | true => simp [untilOpener_of_opens literal]
    | false =>
      have some_lead : (untilOpener (c :: t)).1 ≠ [] := by
        rw [untilOpener_cons literal]
        exact List.cons_ne_nil c _
      simp only [if_neg some_lead]
      constructor
      · intro reads
        cases reads with
        | special opener =>
          rw [literal] at opener
          cases opener
        | literal _ _ reads => exact ⟨_, reads, rfl⟩
      · rintro ⟨qs, reads, rfl⟩
        exact .literal literal rfl reads

/-! ## Texts that are read within some kind of pieces -/

/-- A text that is read into pieces of a kind, or not at all. -/
def Within (g : Grammar P) (kind : P → Prop) (t : Text) : Prop :=
  ∀ removes ps behind, g.Reads removes t ps behind → ∀ p ∈ ps, kind p

variable {kind : P → Prop}

theorem within_nil : g.Within kind [] := by
  intro removes ps behind reads
  cases reads with
  | done => exact nofun
  | special opener => cases opener

/-- A text with an opening delimiter that begins nothing is not read. -/
theorem within_of_none (delimiter : opens t = true) (nothing : g.special? t = none) : g.Within kind t := by
  intro removes ps behind reads
  obtain ⟨_, _, _, _, begins, -⟩ := reads.of_opens delimiter
  rw [nothing] at begins
  cases begins

/-- A piece of the kind in front changes nothing. -/
theorem within_of_special? {rest : Text} {p : P} {removes : Bool} (delimiter : opens t = true)
    (begins : g.special? t = some (p, removes, rest)) (piece : kind p) (within : g.Within kind rest) :
    g.Within kind t := by
  intro removes' ps behind reads
  obtain ⟨_, _, _, _, begins', reads', rfl⟩ := reads.of_opens delimiter
  cases begins.symm.trans begins'
  exact List.forall_mem_cons.2 ⟨piece, within _ _ _ reads'⟩

/-- **Literal text in front changes nothing**, unless it makes an opening delimiter. -/
theorem within_char (shown : ∀ t, kind (g.literal t)) {c : Char} (literal : opens (c :: t) = false)
    (within : g.Within kind t) : g.Within kind (c :: t) := by
  intro removes ps behind reads
  cases reads with
  | space _ reads => exact within _ _ _ reads
  | special opener =>
    rw [literal] at opener
    cases opener
  | literal _ _ reads =>
    rw [untilOpener_cons literal] at reads
    have whole := within _ _ _ ((reads_iff (t := t)).2 ⟨_, reads, rfl⟩)
    refine List.forall_mem_cons.2 ⟨shown _, fun p mem => whole p ?_⟩
    split
    · exact mem
    · exact List.mem_cons_of_mem _ mem

end Grammar

end TagTemplate
