/-
# Proofs.Rendering.Stripped -- what stripping leaves looks nothing up

Stripping removes a region with matching delimiters, or puts it into a raw region of its
own, or keeps it because it looks like a tag or is a comment that does; none of these looks
anything up.  A region whose delimiters do not match stays as it is.  It is no statement, as
long as its first closing delimiter is where the renderer looks for the end as well, which is
so if there is neither a brace nor a quotation mark before it (`Snippet.isHarmless`,
`within_region`).

Behind the last region no opening delimiter is closed.  At the end of the compiled text it
begins nothing then; in front of a tag it might be closed by what is put there.

So some cells leave a text that can stand anywhere in compiled text, or at its end, if they
are harmless (`seals_kept`, `safe_kept`).
-/
import TagTemplate.Proofs.Rendering.Sealed
import TagTemplate.Proofs.Source.Cells

namespace TagTemplate

set_option autoImplicit false

open Text

namespace Source

/-! ## Harmless cells -/

/-- Whether the delimiters of a region match, or it is no comment and there is neither a brace nor a quotation mark
before the wrong one. -/
def Snippet.isHarmless (s : Snippet) : Bool :=
  s.closer == matchingMark s.opener ||
    s.opener != '#' && s.body.all fun c => c != '{' && !Expression.isQuote c

/-- Whether nowhere in a text stands the closing delimiter of an opening mark. -/
def lacks (m : Char) (t : Text) : Bool := (cut? [matchingMark m, '}'] t).isNone

/-- Whether some cells leave no opening delimiter that could begin a lookup.  `last` says whether they stand behind the
last tag, where an opening delimiter may also be one that nothing closes. -/
def isHarmless (passLiterals last : Bool) : List Cell → Bool
  | [] => true
  | .char c :: cs => (last || !Piece.opens (c :: kept passLiterals cs)) && isHarmless passLiterals last cs
  | .region s :: cs =>
    (s.isHarmless || last && lacks s.opener (s.body ++ s.closer :: '}' :: kept passLiterals cs)) &&
      isHarmless passLiterals last cs

theorem lacks_of_lacks {m : Char} {t : Text} (none : lacks m t = true) : Piece.Lacks m t := by
  rintro a b rfl
  rw [lacks, Option.isNone_iff_eq_none] at none
  induction a with
  | nil => simp [cut?, dropLead?] at none
  | cons c a ih =>
    rw [List.cons_append, cut?] at none
    split at none
    · cases none
    · exact ih (Option.map_eq_none_iff.1 none)

theorem isCloserMark_matchingMark {m : Char} (opener : isOpenerMark m = true) : isCloserMark (matchingMark m) = true := by
  simp only [isOpenerMark, Bool.or_eq_true, beq_iff_eq, or_assoc] at opener
  rcases opener with rfl | rfl | rfl <;> rfl

theorem Unclosed.lacks {m : Char} {t : Text} (unclosed : Unclosed t) (opener : isOpenerMark m = true) :
    Piece.Lacks m t := by
  intro a b split
  have none := unclosed a _ b split
  rw [isCloserMark_matchingMark opener] at none
  cases none

theorem kept_map_char (passLiterals : Bool) (t : Text) : kept passLiterals (t.map .char) = t := by
  induction t with
  | nil => rfl
  | cons c t ih => rw [List.map_cons, kept_char, ih]

/-- What stripping leaves where nothing is closed is not closed either. -/
theorem Unclosed.kept {t : Text} (unclosed : Unclosed t) {cs post : List Cell} (split : Source.cells t = cs ++ post)
    (passLiterals : Bool) : Unclosed (Source.kept passLiterals cs) := by
  rw [unclosed.cells] at split
  obtain ⟨u, v, rfl, rfl, -⟩ := List.map_eq_append_iff.1 split
  rw [kept_map_char]
  exact fun a k b eq => unclosed a k (b ++ v) (by rw [eq]; simp)

/-- **An opening delimiter among the characters is one that nothing closes.** -/
theorem exists_of_opens_kept {t : Text} {cs post : List Cell} (nothing : snippet? ('{' :: t) = none)
    (split : cells t = cs ++ post) {passLiterals : Bool} (delimiter : Piece.opens ('{' :: kept passLiterals cs) = true) :
    ∃ m u, kept passLiterals cs = m :: u ∧ Unclosed u := by
  cases cs with
  | nil => cases delimiter
  | cons k cs =>
    rcases of_snippet?_eq_none nothing with literal | ⟨m, u, rfl, unclosed⟩
    · -- No region starts here, for its brace would make a delimiter.
      rcases cells_eq_cons split with ⟨s, rest, rfl, found, -⟩ | ⟨c, rest, rfl, rfl, -, -⟩
      · obtain ⟨rfl, -⟩ := snippet?_eq_some_iff.1 found
        cases literal
      · rw [kept_char, Piece.opens_cons_cons _ _ _ rest, literal] at delimiter
        cases delimiter
    · rw [cells_cons (unclosed.snippet?_cons m)] at split
      obtain ⟨rfl, behind⟩ := List.cons.inj split
      exact ⟨m, kept passLiterals cs, rfl, unclosed.kept behind passLiterals⟩

end Source

namespace Grammar

open Piece
open Source (Snippet Cell kept cells isHarmless isOpenerMark isCloserMark matchingMark Unclosed)

variable {P : Type} {g : Grammar P} (strict : g.Strict) {kind : P → Prop} (shown : ∀ t, kind (g.literal t))

/-! ## Regions -/

include strict shown in
/-- **What stripping leaves of a harmless region looks nothing up.** -/
theorem within_region {s : Snippet} (opener : isOpenerMark s.opener = true) (mark : isCloserMark s.closer = true)
    (unclosed : Unclosed (s.body ++ [s.closer])) (harmless : s.isHarmless = true) (passLiterals : Bool) {rest : Text}
    (within : g.Within kind rest) : g.Within kind (s.replacement passLiterals ++ rest) := by
  obtain ⟨m, body, k⟩ := s
  have written : Snippet.written ⟨m, body, k⟩ ++ rest = '{' :: m :: (body ++ k :: '}' :: rest) := by
    simp [Snippet.written]
  have delimiter : opens ('{' :: m :: (body ++ k :: '}' :: rest)) = true := opener
  by_cases matching : k = matchingMark m
  · unfold Source.Snippet.replacement
    split
    · rename_i foreign
      simp only [Snippet.isForeign, matching, bne_self_eq_false, Bool.false_or, Bool.or_eq_true,
        List.isPrefixOf_iff_prefix] at foreign
      simp only [isOpenerMark, Bool.or_eq_true, beq_iff_eq] at opener
      rcases opener with (rfl | rfl) | rfl
      · refine within_of_none (written ▸ delimiter) (strict.tag ?_ rest)
        rcases foreign with ⟨u, rfl⟩ | ⟨u, rfl⟩ <;> rfl
      · refine within_of_none (written ▸ delimiter) (strict.tag ?_ rest)
        rcases foreign with ⟨u, rfl⟩ | ⟨u, rfl⟩ <;> rfl
      · obtain rfl : k = '#' := matching
        obtain ⟨removes, begins⟩ := strict.comment (unclosed.lacks rfl) rest
        rw [written]
        exact within_of_special? delimiter begins (shown []) within
    · split
      · exact within
      · have ends := endsWhole_written (s := ⟨m, body, k⟩) mark unclosed rest
        rw [List.append_assoc, List.append_assoc]
        exact within_raw strict shown ends within
  · have mixed : m ≠ '#' ∧ ∀ c ∈ body, c ≠ '{' ∧ Expression.isQuote c = false := by
      simpa [Snippet.isHarmless, matching] using harmless
    have kind' : m = '{' ∨ m = '%' := by
      simp only [isOpenerMark, Bool.or_eq_true, beq_iff_eq] at opener
      exact opener.resolve_right mixed.1
    rw [Snippet.replacement_of_mismatched matching, written]
    exact within_of_none delimiter (strict.mixed kind' mixed.2 unclosed mark matching rest)

/-- A region that stripping leaves alone looks nothing up if it is no statement. -/
theorem within_left {s : Snippet} (opener : isOpenerMark s.opener = true) (harmful : s.isHarmless = false)
    (passLiterals : Bool) {rest : Text} (open_ : g.special? ('{' :: s.opener :: (s.body ++ s.closer :: '}' :: rest)) = none) :
    g.Within kind (s.replacement passLiterals ++ rest) := by
  have mismatched : s.closer ≠ matchingMark s.opener := by
    intro matching
    rw [Snippet.isHarmless, matching, beq_self_eq_true, Bool.true_or] at harmful
    cases harmful
  rw [Snippet.replacement_of_mismatched mismatched]
  refine within_of_none (t := s.written ++ rest) opener ?_
  simpa [Snippet.written] using open_

/-! ## Cells -/

include shown in
/-- A brace that begins no region looks nothing up: it is no delimiter, or nothing closes it. -/
theorem within_brace {passLiterals last : Bool} {rest u : Text} (ends : last = true → g.EndsOpen rest)
    (nothing : Source.snippet? ('{' :: u) = none) {cs post : List Cell} (split : cells u = cs ++ post)
    (nonempty : kept passLiterals cs ≠ [])
    (here : (last || !opens ('{' :: kept passLiterals cs)) = true) (behind : g.Within kind (kept passLiterals cs ++ rest)) :
    g.Within kind ('{' :: (kept passLiterals cs ++ rest)) := by
  obtain ⟨d, v, kept_eq⟩ := List.exists_cons_of_ne_nil nonempty
  have still : opens ('{' :: (d :: v ++ rest)) = opens ('{' :: kept passLiterals cs) := by
    rw [kept_eq]
    rfl
  cases delimiter : opens ('{' :: kept passLiterals cs) with
  | false =>
    rw [kept_eq] at behind ⊢
    exact within_char shown (still.trans delimiter) behind
  | true =>
    rw [delimiter, Bool.not_true, Bool.or_false] at here
    obtain ⟨m, w, eq, unclosed⟩ := Source.exists_of_opens_kept nothing split delimiter
    obtain ⟨rfl, rfl⟩ := List.cons.inj (kept_eq.symm.trans eq)
    have opener : isOpenerMark d = true := by
      rw [kept_eq] at delimiter
      exact delimiter
    rw [kept_eq]
    exact within_of_none (still.trans delimiter) (ends here d v opener (unclosed.lacks opener))

include strict shown

/-- **Harmless cells leave a text closed** that is put in front of one.  `brace` is about what follows a brace at their
end. -/
theorem within_kept {passLiterals last : Bool} {rest : Text} (ends : last = true → g.EndsOpen rest)
    (within : g.Within kind rest) {t : Text} {cs post : List Cell} (split : cells t = cs ++ post)
    (harmless : isHarmless passLiterals last cs = true)
    (brace : (kept passLiterals cs).getLast? = some '{' → g.Within kind ('{' :: rest)) :
    g.Within kind (kept passLiterals cs ++ rest) := by
  induction cs generalizing t with
  | nil => exact within
  | cons k cs ih =>
    have brace' : (kept passLiterals cs).getLast? = some '{' → g.Within kind ('{' :: rest) := by
      intro last_brace
      refine brace ?_
      rw [kept, List.flatMap_cons, List.getLast?_append]
      exact Option.or_of_isSome (last_brace ▸ rfl) |>.trans last_brace
    rcases Source.cells_eq_cons split with ⟨s, u, rfl, found, split'⟩ | ⟨c, u, rfl, rfl, nothing, split'⟩
    · obtain ⟨here, harmless'⟩ := Bool.and_eq_true_iff.1 harmless
      have behind := ih split' harmless' brace'
      obtain ⟨-, opener, mark, unclosed⟩ := Source.snippet?_eq_some_iff.1 found
      rw [Source.kept_region, List.append_assoc]
      cases safe : s.isHarmless with
      | true => exact within_region strict shown opener mark unclosed safe passLiterals behind
      | false =>
        rw [safe, Bool.false_or, Bool.and_eq_true] at here
        have open_ := ends here.1 s.opener _ opener (Source.lacks_of_lacks here.2)
        exact within_left opener safe passLiterals (by simpa using open_)
    · obtain ⟨here, harmless'⟩ := Bool.and_eq_true_iff.1 harmless
      have behind := ih split' harmless' brace'
      rw [Source.kept_char, List.cons_append]
      by_cases same : c = '{'
      · subst same
        by_cases nonempty : kept passLiterals cs = []
        · rw [nonempty]
          refine brace ?_
          rw [Source.kept_char, nonempty]
          rfl
        · exact within_brace shown ends nothing split' nonempty here behind
      · exact within_char shown (opens_of_ne same _) behind

/-! ## Texts that stripping leaves -/

variable {brace passLiterals : Bool} {t : Text} {cs : List Cell} (stretch : cs <:+: cells t)
include stretch

/-- A text that stripping leaves is safe in front of a safe one, if either no brace or no mark comes to its ends. -/
theorem safe_kept {last : Bool} {rest : Text} (harmless : isHarmless passLiterals last cs = true)
    (ends : last = true → g.EndsOpen rest) (safe : g.Safe kind brace rest)
    (behind : (kept passLiterals cs).getLast? = some '{' → g.Within kind ('{' :: rest))
    (starts : brace = true → startsWith isOpenerMark (kept passLiterals cs) = false) :
    g.Safe kind brace (kept passLiterals cs ++ rest) := by
  obtain ⟨before, post, split⟩ := stretch
  rw [List.append_assoc] at split
  obtain ⟨u, split⟩ := Source.exists_cells split.symm
  have within := within_kept strict shown ends safe.1 split harmless behind
  refine ⟨within, fun braced => ?_⟩
  cases eq : kept passLiterals cs with
  | nil => exact safe.2 braced
  | cons c v =>
    have plain := starts braced
    rw [eq] at plain within
    exact within_char shown plain within

/-- **Harmless cells can stand anywhere.** -/
theorem seals_kept (harmless : isHarmless passLiterals false cs = true)
    (ends : (kept passLiterals cs).getLast? = some '{' → brace = true)
    (starts : brace = true → startsWith isOpenerMark (kept passLiterals cs) = false) :
    g.Seals kind brace (kept passLiterals cs) :=
  fun _ safe => safe_kept strict shown stretch harmless nofun safe (fun last => safe.2 (ends last)) starts

end Grammar

end TagTemplate
