/-
# Proofs.Rendering.Lookups -- the language of lookups and includes keeps the rules

What an opening delimiter begins ends with the closing delimiter of its kind
(`closedBy_of_special?`), and is the same with any text behind (`special?_append`).  So the
language is regular (`regular_language`).

It is strict as well (`strict_language`), since no reader gets past a mark of a delimiter
but in quotes.  The first closing delimiter in a text without quotation marks is where the
statement ends, or is one of the wrong kind (`eq_of_takes_closer`).
-/
import TagTemplate.Proofs.Rendering.Delimited

namespace TagTemplate

set_option autoImplicit false

open Text

namespace Piece

open Source (matchingMark isCloserMark Unclosed)

variable {t rest : Text}

/-! ## Where a statement ends -/

/-- A text up to a closing delimiter, which has a minus sign if it removes what is behind. -/
def ClosedBy (k : Char) (t rest : Text) (removes : Bool) : Prop :=
  ∃ body, t = body ++ k :: '}' :: rest ∧ (removes = true → body.getLast? = some '-')

variable {k : Char} {removes : Bool}

theorem ClosedBy.append (closed : ClosedBy k t rest removes) (lead : Text) : ClosedBy k (lead ++ t) rest removes := by
  obtain ⟨body, rfl, sign⟩ := closed
  refine ⟨lead ++ body, (List.append_assoc ..).symm, fun removed => ?_⟩
  rw [List.getLast?_append, sign removed]
  rfl

theorem ClosedBy.of_takes {s : Text} (closed : ClosedBy k t rest removes) (takes : Takes s t) :
    ClosedBy k s rest removes := by
  obtain ⟨lead, rfl, -⟩ := takes
  exact closed.append lead

theorem closedBy_of_close? (mark : isCloserMark k = true) (found : close? [k, '}'] t = some (removes, rest)) :
    ClosedBy k t rest removes := by
  have plain : k ≠ '-' ∧ k ≠ '+' := by
    constructor <;> rintro rfl <;> cases mark
  obtain ⟨sign, mem, rfl, rfl⟩ := (close?_eq_some_iff plain).1 found
  refine ⟨sign, rfl, fun removed => ?_⟩
  rw [of_decide_eq_true removed]
  rfl

theorem closedBy_of_statementEnd? (found : statementEnd? t = some (removes, rest)) : ClosedBy '%' t rest removes :=
  (closedBy_of_close? rfl found).of_takes (Expression.takes_skip t)

theorem closedBy_of_print? {p : Piece} (found : print? t = some (p, removes, rest)) : ClosedBy '}' t rest removes := by
  obtain ⟨⟨e, t₁⟩, read, found₁⟩ := Option.bind_eq_some_iff.1 found
  obtain ⟨⟨r, t₂⟩, closed, eq⟩ := Option.bind_eq_some_iff.1 found₁
  cases eq
  exact (closedBy_of_close? rfl closed).of_takes (Expression.takes_read? read)

theorem closedBy_of_include? {p : Piece} (found : include? t = some (p, removes, rest)) :
    ClosedBy '%' t rest removes := by
  obtain ⟨⟨word, t₁⟩, read, found₁⟩ := Option.bind_eq_some_iff.1 found
  dsimp only at found₁
  split at found₁
  · obtain ⟨⟨e, t₂⟩, read', found₂⟩ := Option.bind_eq_some_iff.1 found₁
    obtain ⟨⟨optional, t₃⟩, read'', found₃⟩ := Option.bind_eq_some_iff.1 found₂
    obtain ⟨⟨r, t₄⟩, closed, eq⟩ := Option.bind_eq_some_iff.1 found₃
    cases eq
    exact (closedBy_of_statementEnd? closed).of_takes ((Expression.takes_skip t).trans
      ((Expression.takes_name? read).trans ((Expression.takes_read? read').trans (takes_optional? read''))))
  · cases found₁

theorem closedBy_of_bareStatement? {word : Text} (found : bareStatement? word t = some (removes, rest)) :
    ClosedBy '%' t rest removes := by
  obtain ⟨t₁, dropped, closed⟩ := Option.bind_eq_some_iff.1 found
  obtain ⟨gap, split, -⟩ := Expression.exists_skip t
  rw [split, dropLead?_eq_some_iff.1 dropped]
  exact ((closedBy_of_statementEnd? closed).append word).append gap

theorem closedBy_of_raw? {p : Piece} (found : raw? t = some (p, removes, rest)) : ClosedBy '%' t rest removes := by
  obtain ⟨⟨removesStart, t₁⟩, begins, found₁⟩ := Option.bind_eq_some_iff.1 found
  obtain ⟨⟨body, t₂⟩, until_, found₂⟩ := Option.bind_eq_some_iff.1 found₁
  obtain ⟨⟨removes', r⟩, ends, eq⟩ := Option.bind_eq_some_iff.1 found₂
  cases eq
  have closed : ClosedBy '%' t₂ rest removes := by
    unfold endraw? at ends
    split at ends
    · exact ((closedBy_of_bareStatement? ends).of_takes (takes_afterOpener '%' _)).append ['{', '%']
    · cases ends
  obtain ⟨lead, rfl, -⟩ := closedBy_of_bareStatement? begins
  rw [(exists_of_untilEndraw? until_).1]
  exact ((closed.append body).append ['%', '}']).append lead

theorem closedBy_of_comment? {p : Piece} (found : comment? t = some (p, removes, rest)) :
    ClosedBy '#' t rest removes := by
  obtain ⟨⟨body, after⟩, cut, eq⟩ := Option.map_eq_some_iff.1 found
  cases eq
  refine ⟨body, ?_, fun removed => by simpa using removed⟩
  rw [eq_of_cut? cut, List.append_assoc]
  rfl

/-- **What an opening delimiter begins ends with the closing delimiter of its kind.** -/
theorem closedBy_of_special? {m : Char} {p : Piece} (found : special? ('{' :: m :: t) = some (p, removes, rest)) :
    ClosedBy (matchingMark m) t rest removes := by
  unfold special? at found
  split at found
  · rename_i u eq
    cases eq
    exact (closedBy_of_print? found).of_takes (takes_afterOpener '{' t)
  · rename_i u eq
    cases eq
    dsimp only at found
    split at found
    · exact (closedBy_of_raw? found).of_takes (takes_afterOpener '%' t)
    · exact (closedBy_of_include? found).of_takes (takes_afterOpener '%' t)
  · rename_i u eq
    cases eq
    exact (closedBy_of_comment? found).of_takes (takes_afterOpener '#' t)
  · cases found

/-! ## Closing delimiters of the wrong kind -/

/-- Without quotation marks before it, the first closing delimiter in a text is the first one that a reader gets to. -/
theorem eq_of_takes_closer {body after : Text} {j : Char} (quiet : ∀ c ∈ body, Expression.isQuote c = false)
    (unclosed : Unclosed (body ++ [k])) (mark : isCloserMark k = true) (mark' : isCloserMark j = true)
    (takes : Takes (body ++ k :: '}' :: rest) (j :: '}' :: after)) : j = k := by
  have is_mark : isMark k = true := by
    simp only [isCloserMark, Bool.or_eq_true, beq_iff_eq, or_assoc] at mark
    exact isMark_iff.2 (.inr mark)
  obtain ⟨lead, split, guarded⟩ := takes
  rcases List.append_eq_append_iff.1 split with ⟨mid, rfl, behind⟩ | ⟨mid, rfl, behind⟩
  · cases mid with
    | nil => exact (List.cons.inj behind).1.symm
    | cons c mid =>
      -- The reader has passed the closing delimiter, so there are quotation marks before it.
      obtain ⟨rfl, -⟩ := List.cons.inj behind
      obtain ⟨⟨q, mem, quote⟩, -⟩ := guarded body k mid rfl is_mark
      rw [quiet q mem] at quote
      cases quote
  · match mid with
    | [] => exact (List.cons.inj behind).1
    | [c] =>
      obtain ⟨rfl, tail⟩ := List.cons.inj behind
      obtain ⟨rfl, -⟩ := List.cons.inj tail
      rw [unclosed lead j [] (by simp)] at mark'
      cases mark'
    | c :: d :: mid =>
      obtain ⟨rfl, tail⟩ := List.cons.inj behind
      obtain ⟨rfl, -⟩ := List.cons.inj tail
      rw [unclosed lead j (mid ++ [k]) (by simp)] at mark'
      cases mark'

/-- A statement ends with a closing delimiter of its own kind, or is none. -/
theorem special?_of_mixed {m : Char} {body : Text} (opener : m = '{' ∨ m = '%')
    (quiet : ∀ c ∈ body, Expression.isQuote c = false) (unclosed : Unclosed (body ++ [k]))
    (mark : isCloserMark k = true) (other : k ≠ matchingMark m) (rest : Text) :
    special? ('{' :: m :: (body ++ k :: '}' :: rest)) = none := by
  have begins := takes_afterOpener m (body ++ k :: '}' :: rest)
  have wrong {j : Char} {after : Text} (mark' : isCloserMark j = true) (same : matchingMark m = j) :
      ¬ Takes (body ++ k :: '}' :: rest) (j :: '}' :: after) := fun takes =>
    other (same ▸ (eq_of_takes_closer quiet unclosed mark mark' takes).symm)
  rcases opener with rfl | rfl
  · show print? _ = none
    cases read : print? (afterOpener ('{' :: '{' :: (body ++ k :: '}' :: rest))) with
    | none => rfl
    | some found => exact absurd (begins.trans (takes_print? read)) (wrong rfl rfl)
  · show (if _ then _ else _) = none
    cases raw : bareStatement? "raw".toList (afterOpener ('{' :: '%' :: (body ++ k :: '}' :: rest))) with
    | some found => exact absurd (begins.trans (takes_bareStatement? (by decide) raw)) (wrong rfl rfl)
    | none =>
      cases read : include? (afterOpener ('{' :: '%' :: (body ++ k :: '}' :: rest))) with
      | none => rfl
      | some found => exact absurd (begins.trans (takes_include? read)) (wrong rfl rfl)

/-- No reader gets past an opening delimiter without quotation marks behind. -/
theorem not_takes_behind {u after : Text} (lacks : Lacks '%' t) (quiet : ∀ c ∈ u, Expression.isQuote c = false) :
    ¬ Takes (t ++ '{' :: '%' :: u) ('%' :: '}' :: after) := by
  rintro ⟨lead, split, guarded⟩
  rcases List.append_eq_append_iff.1 split with ⟨mid, rfl, behind⟩ | ⟨mid, rfl, behind⟩
  · cases mid with
    | nil => cases (List.cons.inj behind).1
    | cons c mid =>
      obtain ⟨rfl, tail⟩ := List.cons.inj behind
      obtain ⟨-, q, mem, quote⟩ := guarded t '{' mid rfl rfl
      have inside : q ∈ '%' :: u := tail ▸ List.mem_append_left _ mem
      rcases List.mem_cons.1 inside with rfl | inside
      · cases quote
      · rw [quiet q inside] at quote
        cases quote
  · match mid with
    | [] => cases (List.cons.inj behind).1
    | [c] => cases (List.cons.inj (List.cons.inj behind).2).1
    | c :: d :: mid =>
      obtain ⟨rfl, tail⟩ := List.cons.inj behind
      obtain ⟨rfl, -⟩ := List.cons.inj tail
      exact lacks lead mid rfl

theorem special?_of_barrier {u : Text} (lacks : Lacks '%' t) (quiet : ∀ c ∈ u, Expression.isQuote c = false) :
    special? ('{' :: '%' :: (t ++ '{' :: '%' :: u)) = none := by
  have begins := takes_afterOpener '%' (t ++ '{' :: '%' :: u)
  show (if _ then _ else _) = none
  cases raw : bareStatement? "raw".toList (afterOpener ('{' :: '%' :: (t ++ '{' :: '%' :: u))) with
  | some found => exact absurd (begins.trans (takes_bareStatement? (by decide) raw)) (not_takes_behind lacks quiet)
  | none =>
    cases read : include? (afterOpener ('{' :: '%' :: (t ++ '{' :: '%' :: u))) with
    | none => rfl
    | some found => exact absurd (begins.trans (takes_include? read)) (not_takes_behind lacks quiet)

/-! ## Comments -/

theorem cut?_comment {body : Text} (lacks : Lacks '#' (body ++ ['#'])) (rest : Text) :
    cut? ['#', '}'] (body ++ '#' :: '}' :: rest) = some (body, rest) := by
  induction body with
  | nil => rfl
  | cons c body ih =>
    have not_here : dropLead? ['#', '}'] (c :: (body ++ '#' :: '}' :: rest)) = none := by
      rw [Option.eq_none_iff_forall_ne_some]
      intro r found
      obtain ⟨rfl, tail⟩ := List.cons.inj (dropLead?_eq_some_iff.1 found)
      cases body with
      | nil => cases (List.cons.inj tail).1
      | cons d body =>
        obtain ⟨rfl, -⟩ := List.cons.inj tail
        exact lacks [] (body ++ ['#']) rfl
    have inner : Lacks '#' (body ++ ['#']) := fun a b split => lacks (c :: a) b (congrArg (c :: ·) split)
    rw [List.cons_append, cut?, not_here, ih inner]
    rfl

theorem special?_comment {body : Text} (lacks : Lacks '#' (body ++ ['#'])) (rest : Text) :
    ∃ removes, special? ('{' :: '#' :: (body ++ '#' :: '}' :: rest)) = some (.text [], removes, rest) := by
  have inner : ∃ body', afterOpener ('{' :: '#' :: (body ++ '#' :: '}' :: rest)) = body' ++ '#' :: '}' :: rest ∧
      Lacks '#' (body' ++ ['#']) := by
    match body with
    | [] => exact ⟨[], rfl, lacks⟩
    | c :: body =>
      have behind : Lacks '#' (body ++ ['#']) := fun a b split => lacks (c :: a) b (congrArg (c :: ·) split)
      unfold afterOpener
      split
      · rename_i r eq
        exact ⟨body, (List.cons.inj eq).2.symm, behind⟩
      · rename_i r eq
        exact ⟨body, (List.cons.inj eq).2.symm, behind⟩
      · exact ⟨c :: body, rfl, lacks⟩
  obtain ⟨body', eq, lacks'⟩ := inner
  refine ⟨body'.getLast? == some '-', ?_⟩
  show comment? (afterOpener _) = _
  rw [eq, comment?, cut?_comment lacks' rest]
  rfl

/-! ## The rules -/

theorem special?_ownTag {t : Text} (own : isOwnTag t = true) (rest : Text) : special? (t ++ rest) = none := by
  simp only [isOwnTag, Bool.or_eq_true, List.isPrefixOf_iff_prefix, or_assoc] at own
  rcases own with ⟨u, rfl⟩ | ⟨u, rfl⟩ | ⟨u, rfl⟩ | ⟨u, rfl⟩ <;> rfl

theorem strict_grammar : grammar.Strict where
  extent begins u := special?_append begins u
  closing begins := closedBy_of_special? begins
  raw := special?_raw
  comment := special?_comment
  endraw _ := rfl
  tag := special?_ownTag
  percent _ := rfl
  mixed opener plain unclosed mark other rest :=
    special?_of_mixed opener (fun c mem => (plain c mem).2) unclosed mark other rest
  barrier := special?_of_barrier

/-- **The language of lookups and includes is regular.** -/
theorem regular_language : language.Regular where
  grammar := strict_grammar.toRegular
  literal _ _ _ := rfl
  finish _ _ _ := rfl
  start _ _ _ _ _ _ := rfl

/-- **The language of lookups and includes is strict.** -/
theorem strict_language : language.Strict fun name => .includes (.constant (.text name)) false where
  toRegular := regular_language
  strict := strict_grammar
  included := special?_include
  inclusion _ _ _ _ := rfl
  fresh _ _ _ _ := ⟨rfl, rfl⟩

end Piece

end TagTemplate
