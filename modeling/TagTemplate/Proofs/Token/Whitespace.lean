/-
# Proofs.Token.Whitespace -- what the strip modifiers take off, and from which text

`LeadCut` and `TrailCut` say, without an algorithm, what is left of a text when the blanks
at its front and a line break behind them are taken off, or the blanks at its end.  A text
token is the slice of its span with the one cut made if the tag before it strips what
follows, and the other if the tag after it strips what precedes
(`tokenize_strips_exactly`).

The two cuts commute (`stripped_comm`), so it does not matter which neighbour comes first.
`visit` is one tag's turn when tags strip the texts beside them in place, one after the
other: in whatever order the tags have their turns, the tokens are those of `settle`
(`foldl_visit`).  What carries this is that a text has its front cut at most once: a second
cut there could take a second line break.
-/
import TagTemplate.Proofs.Token.Partition

namespace TagTemplate

set_option autoImplicit false

open Text

/-! ## Cuts -/

namespace Text

/-- The line breaks that a strip modifier knows. -/
def IsBreak (t : Text) : Prop := t = ['\n'] ∨ t = ['\r', '\n']

/-- What is kept of a text without the longest run of blanks at its front and then at most one line break. -/
def LeadCut (t kept : Text) : Prop :=
  ∃ blanks rest, t = blanks ++ rest ∧ (∀ c ∈ blanks, isBlank c = true) ∧ startsWith isBlank rest = false ∧
    ((∃ line, IsBreak line ∧ rest = line ++ kept) ∨ (rest = kept ∧ ∀ line, IsBreak line → ¬ line <+: rest))

/-- What is kept of a text without the longest run of blanks at its end. -/
def TrailCut (t kept : Text) : Prop :=
  ∃ blanks, t = kept ++ blanks ∧ (∀ c ∈ blanks, isBlank c = true) ∧ ∀ c ∈ kept.getLast?, isBlank c = false

def CutIf (made : Bool) (cut : Text → Text → Prop) (t kept : Text) : Prop := if made then cut t kept else kept = t

theorem startsWith_dropWhile (p : Char → Bool) (t : Text) : startsWith p (t.dropWhile p) = false := by
  induction t with
  | nil => rfl
  | cons c t ih =>
    rw [List.dropWhile_cons]
    split
    · exact ih
    · rename_i other
      exact Bool.eq_false_iff.2 other

/-- A run of characters that satisfy `p` is dropped, up to one that does not. -/
theorem dropWhile_append_of_startsWith {p : Char → Bool} {run rest : Text} (all : ∀ c ∈ run, p c = true)
    (stops : startsWith p rest = false) : (run ++ rest).dropWhile p = rest := by
  rw [List.dropWhile_append_of_pos all]
  cases rest with
  | nil => rfl
  | cons c rest => exact List.dropWhile_cons_of_neg (Bool.eq_false_iff.1 stops)

end Text

namespace Token

theorem leadCut_iff {t kept : Text} : LeadCut t kept ↔ kept = dropBlankLead t := by
  constructor
  · rintro ⟨blanks, rest, rfl, blank, stops, ⟨line, rfl | rfl, rfl⟩ | ⟨rfl, none⟩⟩ <;>
      unfold dropBlankLead <;> rw [dropWhile_append_of_startsWith blank stops]
    · rfl
    · rfl
    · split
      · exact absurd ⟨_, rfl⟩ (none _ (.inr rfl))
      · exact absurd ⟨_, rfl⟩ (none _ (.inl rfl))
      · rfl
  · rintro rfl
    refine ⟨t.takeWhile isBlank, t.dropWhile isBlank, List.takeWhile_append_dropWhile.symm,
      fun c mem => List.mem_takeWhile_imp mem, startsWith_dropWhile _ _, ?_⟩
    unfold dropBlankLead
    split
    · rename_i r eq
      exact .inl ⟨_, .inr rfl, eq⟩
    · rename_i r eq
      exact .inl ⟨_, .inl rfl, eq⟩
    · rename_i crlf lf
      refine .inr ⟨rfl, ?_⟩
      rintro line (rfl | rfl) ⟨r, eq⟩
      · exact lf r eq.symm
      · exact crlf r eq.symm

theorem trailCut_iff {t kept : Text} : TrailCut t kept ↔ kept = dropEndWhile isBlank t := by
  unfold dropEndWhile
  constructor
  · rintro ⟨blanks, rfl, blank, stops⟩
    have stops' : startsWith isBlank kept.reverse = false := by
      rw [← List.head?_reverse] at stops
      cases eq : kept.reverse with
      | nil => rfl
      | cons c r => exact stops c (by rw [eq]; rfl)
    rw [List.reverse_append, dropWhile_append_of_startsWith (by simpa using blank) stops', List.reverse_reverse]
  · rintro rfl
    refine ⟨(t.reverse.takeWhile isBlank).reverse, ?_, fun c mem => ?_, fun c mem => ?_⟩
    · rw [← List.reverse_append, List.takeWhile_append_dropWhile, List.reverse_reverse]
    · exact List.mem_takeWhile_imp (List.mem_reverse.1 mem)
    · rw [List.getLast?_reverse] at mem
      have stops := startsWith_dropWhile isBlank t.reverse
      cases eq : t.reverse.dropWhile isBlank with
      | nil =>
        rw [eq] at mem
        cases mem
      | cons d r =>
        rw [eq] at mem stops
        cases mem
        exact stops

/-! ## Both cuts -/

/-- Blanks at the end of a text are taken off behind any part of it that does not end with one. -/
theorem trailCut_append {front t kept : Text} (solid : ∀ c ∈ front.getLast?, isBlank c = false)
    (cut : TrailCut t kept) : TrailCut (front ++ t) (front ++ kept) := by
  obtain ⟨blanks, rfl, blank, stops⟩ := cut
  refine ⟨blanks, (List.append_assoc ..).symm, blank, fun c mem => ?_⟩
  rcases List.eq_nil_or_concat kept with rfl | ⟨kept, d, rfl⟩
  · rw [List.append_nil] at mem
    exact solid c mem
  · refine stops c ?_
    simpa using mem

theorem trailCut_nil_of_blank {blanks : Text} (blank : ∀ c ∈ blanks, isBlank c = true) : TrailCut blanks [] :=
  ⟨blanks, rfl, blank, fun _ mem => nomatch mem⟩

/-- **Where both ends of a text are cut, the end can be cut first.** -/
theorem exists_trailCut_leadCut {t m kept : Text} (lead : LeadCut t m) (trail : TrailCut m kept) :
    ∃ m', TrailCut t m' ∧ LeadCut m' kept := by
  obtain ⟨blanks, rest, rfl, blank, stops, ⟨line, is_break, rfl⟩ | ⟨rfl, none⟩⟩ := lead
  · -- a line break is no blank, so what is behind it is cut as if it stood alone
    have solid : ∀ c ∈ (blanks ++ line).getLast?, isBlank c = false := by
      rcases is_break with rfl | rfl <;> simp [isBlank]
    have cut := trailCut_append solid trail
    rw [List.append_assoc, List.append_assoc] at cut
    refine ⟨_, cut, blanks, _, rfl, blank, ?_, .inl ⟨line, is_break, rfl⟩⟩
    rcases is_break with rfl | rfl <;> rfl
  · cases rest with
    | nil =>
      obtain ⟨_, eq, -⟩ := trail
      obtain ⟨rfl, rfl⟩ := List.append_eq_nil_iff.1 eq.symm
      rw [List.append_nil]
      exact ⟨[], trailCut_nil_of_blank blank, [], [], rfl, (fun _ mem => nomatch mem), rfl, .inr ⟨rfl, none⟩⟩
    | cons c r =>
      -- the first character behind the blanks is kept by both cuts
      have first : isBlank c = false := stops
      obtain ⟨r', cut⟩ : ∃ r', TrailCut r r' := ⟨_, trailCut_iff.2 rfl⟩
      have solid : ∀ d ∈ (blanks ++ [c]).getLast?, isBlank d = false := by simpa using first
      have here : TrailCut (c :: r) (c :: r') := @trailCut_append [c] _ _ (by simpa using first) cut
      obtain rfl : kept = c :: r' := (trailCut_iff.1 trail).trans (trailCut_iff.1 here).symm
      have whole := trailCut_append solid cut
      rw [List.append_assoc, List.append_assoc] at whole
      refine ⟨_, whole, blanks, _, rfl, blank, stops, .inr ⟨rfl, fun line is_break lead => none line is_break ?_⟩⟩
      obtain ⟨tail, rfl, -⟩ := cut
      exact lead.trans (List.prefix_append (c :: r') tail)

theorem stripped_comm (t : Text) : dropBlankLead (dropEndWhile isBlank t) = dropEndWhile isBlank (dropBlankLead t) := by
  obtain ⟨m, trail, lead⟩ := exists_trailCut_leadCut (leadCut_iff.2 rfl) (trailCut_iff.2 rfl)
  rw [leadCut_iff.1 lead, trailCut_iff.1 trail]

variable {lead trail lead' trail' : Bool}

theorem cutIf_lead_iff {t kept : Text} : CutIf lead LeadCut t kept ↔ kept = strippedText lead false t := by
  cases lead
  · exact Iff.rfl
  · exact leadCut_iff

theorem cutIf_trail_iff {t kept : Text} : CutIf trail TrailCut t kept ↔ kept = strippedText false trail t := by
  cases trail
  · exact Iff.rfl
  · exact trailCut_iff

/-- Cuts at a text add up, if not both take blanks and a line break from its front. -/
theorem strippedText_strippedText (once : (lead && lead') = false) (t : Text) :
    strippedText lead' trail' (strippedText lead trail t) = strippedText (lead || lead') (trail || trail') t := by
  have twice (t : Text) : dropEndWhile isBlank (dropEndWhile isBlank t) = dropEndWhile isBlank t :=
    List.rdropWhile_idempotent _ _
  cases lead <;> cases lead' <;> cases trail <;> cases trail' <;> simp_all [strippedText, stripped_comm]

/-! ## Turns -/

def strippedInFront (ts : List Token) (i : Nat) : Bool := i ≠ 0 && ts[i - 1]?.any (·.fragment.stripsBehind)

def strippedFromBehind (ts : List Token) (i : Nat) : Bool := ts[i + 1]?.any (·.fragment.stripsFront)

/-- Cut the text at an index, if there is one and the cut is to be made. -/
def cutAt (made lead trail : Bool) (i : Nat) (ts : List Token) : List Token :=
  if made then ts.modify i (between lead trail) else ts

/-- One token's turn: if it is a tag, it strips the texts beside it in place as its modifiers say. -/
def visit (ts : List Token) (i : Nat) : List Token :=
  cutAt (ts[i]?.any (·.fragment.stripsBehind)) true false (i + 1)
    (cutAt (i ≠ 0 && ts[i]?.any (·.fragment.stripsFront)) false true (i - 1) ts)

@[simp] theorem stripsFront_between (token : Token) :
    (token.between lead trail).fragment.stripsFront = token.fragment.stripsFront := by
  obtain ⟨_ | _, _, _⟩ := token <;> rfl

@[simp] theorem stripsBehind_between (token : Token) :
    (token.between lead trail).fragment.stripsBehind = token.fragment.stripsBehind := by
  obtain ⟨_ | _, _, _⟩ := token <;> rfl

theorem between_between (once : (lead && lead') = false) (token : Token) :
    (token.between lead trail).between lead' trail' = token.between (lead || lead') (trail || trail') := by
  obtain ⟨x | tag, a, b⟩ := token
  · exact congrArg (Token.mk · a b) (congrArg Fragment.text (strippedText_strippedText once x))
  · rfl

theorem getElem?_cutAt (made : Bool) (i j : Nat) (ts : List Token) :
    (cutAt made lead trail i ts)[j]? = ts[j]?.map (between (made && i = j && lead) (made && i = j && trail)) := by
  unfold cutAt
  cases made with
  | false => simp
  | true =>
    rw [if_pos rfl, List.getElem?_modify]
    by_cases here : i = j <;> simp [here]

/-- A turn strips the two neighbours and leaves every other token. -/
theorem getElem?_visit (ts : List Token) (i j : Nat) :
    (visit ts i)[j]? = ts[j]?.map
      (between (j - 1 = i && strippedInFront ts j) (j + 1 = i && strippedFromBehind ts j)) := by
  have lead : (ts[i]?.any (·.fragment.stripsBehind) && i + 1 = j) = (j - 1 = i && strippedInFront ts j) := by
    by_cases next : i + 1 = j
    · subst next
      simp [strippedInFront]
    · have other : j - 1 = i → j = 0 := by omega
      by_cases j = 0 <;> simp_all [strippedInFront]
  have trail : ((i ≠ 0 && ts[i]?.any (·.fragment.stripsFront)) && i - 1 = j)
      = (j + 1 = i && strippedFromBehind ts j) := by
    by_cases next : j + 1 = i
    · subst next
      simp [strippedFromBehind]
    · have other : i - 1 = j → i = 0 := by omega
      by_cases i = 0 <;> simp_all [strippedFromBehind]
  rw [visit, getElem?_cutAt, getElem?_cutAt, Option.map_map, ← lead, ← trail]
  refine congrFun (congrArg Option.map (funext fun token => ?_)) _
  rw [Function.comp_apply, between_between (by simp)]
  simp

theorem any_getElem?_visit (ts : List Token) (i j : Nat) :
    (visit ts i)[j]?.any (·.fragment.stripsFront) = ts[j]?.any (·.fragment.stripsFront) ∧
      (visit ts i)[j]?.any (·.fragment.stripsBehind) = ts[j]?.any (·.fragment.stripsBehind) := by
  rw [getElem?_visit]
  cases ts[j]? <;> simp

/-- What some turns have done to a text, if no token had two. -/
theorem getElem?_foldl_visit {order : List Nat} (once : order.Nodup) (ts : List Token) (j : Nat) :
    (order.foldl visit ts)[j]? = ts[j]?.map
      (between ((j - 1) ∈ order && strippedInFront ts j) ((j + 1) ∈ order && strippedFromBehind ts j)) := by
  induction order generalizing ts with
  | nil => simp
  | cons i order ih =>
    obtain ⟨fresh, once⟩ := List.nodup_cons.1 once
    have front : strippedInFront (visit ts i) j = strippedInFront ts j :=
      congrArg (_ && ·) (any_getElem?_visit ts i (j - 1)).2
    have behind : strippedFromBehind (visit ts i) j = strippedFromBehind ts j := (any_getElem?_visit ts i (j + 1)).1
    rw [List.foldl_cons, ih once, front, behind, getElem?_visit, Option.map_map]
    refine congrFun (congrArg Option.map (funext fun token => ?_)) _
    -- the token in front has its turn now or later, not both
    have lead_once : ((j - 1 = i && strippedInFront ts j) && ((j - 1) ∈ order && strippedInFront ts j)) = false := by
      by_cases now : j - 1 = i
      · subst now
        simp [fresh]
      · simp [now]
    rw [Function.comp_apply, between_between lead_once, ← Bool.and_or_distrib_right, ← Bool.and_or_distrib_right]
    simp [List.mem_cons]

theorem getElem?_settle_false (ts : List Token) (i : Nat) :
    (settle false ts)[i]? = ts[i]?.map (between (strippedInFront ts i) (strippedFromBehind ts i)) := by
  rw [getElem?_settle]
  by_cases first : i = 0 <;> simp [strippedInFront, strippedFromBehind, first]

/-- Tags may strip the texts beside them in any order, as long as each has one turn. -/
theorem foldl_visit {ts : List Token} {order : List Nat} (perm : order.Perm (List.range ts.length)) :
    order.foldl visit ts = settle false ts := by
  refine List.ext_getElem? fun j => ?_
  have mem (i : Nat) : i ∈ order ↔ i < ts.length := by rw [perm.mem_iff, List.mem_range]
  rw [getElem?_foldl_visit (perm.nodup_iff.2 List.nodup_range), getElem?_settle_false]
  refine congrFun (congrArg Option.map ?_) _
  congr 1
  · by_cases inside : j - 1 < ts.length <;> simp [strippedInFront, mem, inside]
  · by_cases inside : j + 1 < ts.length <;> simp [strippedFromBehind, mem, inside]

/-! ## The tokens of a source -/

theorem stripped_settle (ts : List Token) (i : Nat) :
    strippedInFront (settle false ts) i = strippedInFront ts i ∧
      strippedFromBehind (settle false ts) i = strippedFromBehind ts i := by
  unfold strippedInFront strippedFromBehind
  rw [getElem?_settle_false, getElem?_settle_false]
  cases ts[i - 1]? <;> cases ts[i + 1]? <;> simp

theorem slice_of_text_token {source y : Text} {start stop : Nat}
    (mem : ⟨.text y, start, stop⟩ ∈ place 0 (lexemes source)) : slice source start stop = .ok y := by
  obtain ⟨v, l, w, whole, mem', eq⟩ := lexeme_of_mem_place mem
  rw [flatMap_slice_lexemes] at whole
  obtain ⟨is_text, rfl, rfl⟩ := Token.mk.inj eq
  have movable := movable_lexemes source l mem'
  rw [Movable, ← is_text] at movable
  obtain rfl : l.slice = y := movable
  exact slice_eq_ok_iff.2 ⟨v, w, whole, (Nat.zero_add _).symm, by rw [Nat.zero_add]⟩

/-- Whichever end is cut first, exactly one text is kept. -/
theorem cuts_iff (lead trail : Bool) (y z : Text) :
    ((∃ m, CutIf lead LeadCut y m ∧ CutIf trail TrailCut m z) ↔ z = strippedText lead trail y) ∧
      ((∃ m, CutIf trail TrailCut y m ∧ CutIf lead LeadCut m z) ↔ z = strippedText lead trail y) := by
  simp only [cutIf_lead_iff, cutIf_trail_iff, exists_eq_left]
  rw [strippedText_strippedText (Bool.and_false _), strippedText_strippedText (Bool.false_and _)]
  simp only [Bool.or_false, Bool.false_or, and_self]

/-- **Whitespace control takes off what the neighbours ask for, and nothing else.**  A text is the slice of its span with
its front cut if the token before it is a tag that strips what follows, and its end cut if the token after it is one that
strips what precedes; whichever cut is made first, the text is the same.  All tags may have their turns in any order.  No
tag is changed, and if there were another token in a tag's place, only its two neighbours could differ. -/
theorem tokenize_strips_exactly (source : Text) :
    (∀ (i : Nat) x start stop, (tokenize source)[i]? = some ⟨.text x, start, stop⟩ →
      let lead := CutIf (strippedInFront (tokenize source) i) LeadCut
      let trail := CutIf (strippedFromBehind (tokenize source) i) TrailCut
      ∃ y, slice source start stop = .ok y ∧
        (∀ z, (∃ m, lead y m ∧ trail m z) ↔ z = x) ∧ ∀ z, (∃ m, trail y m ∧ lead m z) ↔ z = x) ∧
    (∀ order : List Nat, order.Perm (List.range (tokenize source).length) →
      order.foldl visit (place 0 (lexemes source)) = tokenize source) ∧
    (∀ (i : Nat) tag start stop, (tokenize source)[i]? = some ⟨.tag tag, start, stop⟩ ↔
      (place 0 (lexemes source))[i]? = some ⟨.tag tag, start, stop⟩) ∧
    ∀ (i j : Nat) token, i ≠ j → i ≠ j + 1 → i + 1 ≠ j →
      (settle false ((place 0 (lexemes source)).set j token))[i]? = (tokenize source)[i]? := by
  refine ⟨fun i x start stop here => ?_, fun order perm => ?_, fun i tag start stop => ?_,
    fun i j token ne behind in_front => ?_⟩
  · rw [tokenize, (stripped_settle _ i).1, (stripped_settle _ i).2]
    rw [tokenize, getElem?_settle_false] at here
    obtain ⟨⟨fragment, a, b⟩, there, eq⟩ := Option.map_eq_some_iff.1 here
    cases fragment with
    | tag => cases eq
    | text y =>
      cases eq
      have cuts := cuts_iff (strippedInFront (place 0 (lexemes source)) i)
        (strippedFromBehind (place 0 (lexemes source)) i) y
      exact ⟨y, slice_of_text_token (List.mem_of_getElem? there), fun z => (cuts z).1, fun z => (cuts z).2⟩
  · rw [tokenize, length_settle] at perm
    exact foldl_visit perm
  · rw [tokenize, getElem?_settle_false]
    generalize (place 0 (lexemes source))[i]? = there
    rcases there with - | ⟨_ | _, _, _⟩ <;> simp [between, Fragment.settled]
  · have front : strippedInFront ((place 0 (lexemes source)).set j token) i
        = strippedInFront (place 0 (lexemes source)) i := by
      by_cases first : i = 0
      · simp [strippedInFront, first]
      · rw [strippedInFront, List.getElem?_set_ne (by omega)]
        rfl
    rw [tokenize, getElem?_settle_false, getElem?_settle_false, front, strippedFromBehind,
      List.getElem?_set_ne (by omega), List.getElem?_set_ne (by omega)]
    rfl

/-- A text of blanks and a line break between two tags that both strip it: the first takes the line break, so nothing is
left for the second but a tab.  Their turns come in reverse. -/
theorem tokenize_strips_blanks_between :
    let source := "\x7b\x7btpl:a~\x7d\x7d \r\n\t\x7b\x7b~tpl:b\x7d\x7d\n".toList
    (tokenize source)[1]? = some ⟨.text [], 10, 14⟩ ∧
      [3, 2, 1, 0].Perm (List.range (tokenize source).length) ∧
      (∃ y, slice source 10 14 = .ok y ∧ ∀ z, (∃ m, TrailCut y m ∧ LeadCut m z) ↔ z = []) ∧
      [3, 2, 1, 0].foldl visit (place 0 (lexemes source)) = tokenize source := by
  intro source
  have here : (tokenize source)[1]? = some ⟨.text [], 10, 14⟩ := by decide +kernel
  have perm : [3, 2, 1, 0].Perm (List.range (tokenize source).length) := by decide +kernel
  obtain ⟨texts, orders, -, -⟩ := tokenize_strips_exactly source
  obtain ⟨y, sliced, -, opposite⟩ := texts 1 [] 10 14 here
  have lead : strippedInFront (tokenize source) 1 = true := by decide +kernel
  have trail : strippedFromBehind (tokenize source) 1 = true := by decide +kernel
  rw [lead, trail] at opposite
  exact ⟨here, perm, ⟨y, sliced, opposite⟩, orders _ perm⟩

end Token

end TagTemplate
