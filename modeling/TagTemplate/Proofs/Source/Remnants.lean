/-
# Proofs.Source.Remnants -- what stripping leaves of the rendering language

A region runs from an opening delimiter to the first closing one, of whatever kind.  If
the two are of one kind the region goes.  If they are not, it is left alone, and so is
everything between them: the text is taken over as it is written (`Copied`), and the
search goes on behind it.

That is the only way in which a delimiter that opens a region survives in front of one
that closes it (`copied_of_remnant`, `prepare_leaves`).  Removing a region cannot put one together, since
a brace in front of a region would have opened one itself; and an opening delimiter that
is kept outside all regions is one that nothing in the rest of the source closes.
-/
import TagTemplate.Proofs.Source.Cells
import TagTemplate.Proofs.Source.CommentLines

namespace TagTemplate.Source

set_option autoImplicit false

open Text

/-! ## Regions that are taken over -/

/-- The region `s` of the text `t`, between `before` and `after`, has delimiters that do not match and
is taken over as it is written. -/
structure Copied (t before : Text) (s : Snippet) (after : Text) : Prop where
  split : t = before ++ s.written ++ after
  region : regions t = regions before ++ s :: regions after
  mismatched : s.closer ≠ matchingMark s.opener
  stripped : stripSnippets false t = stripSnippets false before ++ s.written ++ stripSnippets false after

/-- A region is found whatever follows it. -/
theorem snippet?_append {t rest : Text} {s : Snippet} (found : snippet? t = some (s, rest)) (more : Text) :
    snippet? (t ++ more) = some (s, rest ++ more) := by
  rw [snippet?_eq_some_iff] at found ⊢
  exact ⟨by rw [found.1, List.append_assoc], found.2⟩

theorem snippet?_written {t rest : Text} {s : Snippet} (found : snippet? t = some (s, rest)) (more : Text) :
    snippet? (s.written ++ more) = some (s, more) :=
  snippet?_eq_some_iff.2 ⟨rfl, (snippet?_eq_some_iff.1 found).2⟩

/-- The region that a text starts with, if its delimiters do not match. -/
theorem copied_head {t rest : Text} {s : Snippet} (found : snippet? t = some (s, rest))
    (mismatched : s.closer ≠ matchingMark s.opener) : Copied t [] s rest where
  split := (snippet?_eq_some_iff.1 found).1
  region := by rw [regions_of_snippet? found, regions_nil, List.nil_append]
  mismatched := mismatched
  stripped := by
    have kept : s.replacement false = s.written := by simp [Snippet.replacement, Snippet.isForeign, mismatched]
    rw [stripSnippets_of_snippet? found, kept, stripSnippets_nil, List.nil_append]

namespace Copied

variable {t rest before after : Text} {s : Snippet}

/-- A region behind another one. -/
theorem behind_region (copied : Copied rest before s after) {r : Snippet} (found : snippet? t = some (r, rest)) :
    Copied t (r.written ++ before) s after := by
  have front : snippet? (r.written ++ before) = some (r, before) := snippet?_written found before
  constructor
  case split =>
    rw [(snippet?_eq_some_iff.1 found).1, copied.split]
    simp only [List.append_assoc]
  case region =>
    rw [regions_of_snippet? found, regions_of_snippet? front, copied.region]
    rfl
  case mismatched => exact copied.mismatched
  case stripped =>
    rw [stripSnippets_of_snippet? found, stripSnippets_of_snippet? front, copied.stripped]
    simp only [List.append_assoc]

/-- A region at the start of what is before would be one of the whole text as well. -/
theorem snippet?_front (copied : Copied t before s after) {c : Char} (nothing : snippet? (c :: t) = none) :
    snippet? (c :: before) = none := by
  rw [Option.eq_none_iff_forall_ne_some]
  rintro ⟨r, more⟩ found
  have longer := snippet?_append found (s.written ++ after)
  rw [List.cons_append, ← List.append_assoc, ← copied.split, nothing] at longer
  cases longer

/-- A region behind a character at which none starts. -/
theorem behind_char (copied : Copied t before s after) {c : Char} (nothing : snippet? (c :: t) = none) :
    Copied (c :: t) (c :: before) s after := by
  have front := copied.snippet?_front nothing
  constructor
  case split =>
    rw [copied.split]
    rfl
  case region => rw [regions_cons nothing, regions_cons front, copied.region]
  case mismatched => exact copied.mismatched
  case stripped =>
    rw [stripSnippets_cons nothing, stripSnippets_cons front, copied.stripped]
    rfl

end Copied

theorem marks_of_mem_regions {t : Text} {s : Snippet} (mem : s ∈ regions t) :
    isOpenerMark s.opener = true ∧ isCloserMark s.closer = true := by
  fun_induction regions t with
  | case1 t r rest found shorter ih =>
    rcases List.mem_cons.1 mem with rfl | mem
    · obtain ⟨-, opener, closer, -⟩ := snippet?_eq_some_iff.1 found
      exact ⟨opener, closer⟩
    · exact ih mem
  | case2 => cases mem
  | case3 c t nothing ih => exact ih mem

/-- Every region whose delimiters do not match is taken over. -/
theorem exists_copied {t : Text} {s : Snippet} (mem : s ∈ regions t) (mismatched : s.closer ≠ matchingMark s.opener) :
    ∃ before after, Copied t before s after := by
  fun_induction regions t with
  | case1 t r rest found shorter ih =>
    rcases List.mem_cons.1 mem with rfl | mem
    · exact ⟨[], rest, copied_head found mismatched⟩
    · obtain ⟨before, after, copied⟩ := ih mem
      exact ⟨r.written ++ before, after, copied.behind_region found⟩
  | case2 => cases mem
  | case3 c t nothing ih =>
    obtain ⟨before, after, copied⟩ := ih mem
    exact ⟨c :: before, after, copied.behind_char nothing⟩

/-! ## Where an opening delimiter survives -/

/-- A region with matching delimiters is not foreign, unless it looks like a tag. -/
theorem isForeign_of_matching {s : Snippet} (matching : s.closer = matchingMark s.opener)
    (noTag : ¬ "tpl:".toList <:+: s.body) : s.isForeign = false := by
  have plain : "tpl:".toList.isPrefixOf s.body = false := by
    rw [Bool.eq_false_iff, Ne, List.isPrefixOf_iff_prefix]
    exact fun lead => noTag lead.isInfix
  have trimmed : "~tpl:".toList.isPrefixOf s.body = false := by
    rw [Bool.eq_false_iff, Ne, List.isPrefixOf_iff_prefix]
    rintro ⟨u, eq⟩
    exact noTag ⟨['~'], u, eq⟩
  unfold Snippet.isForeign
  rw [plain, trimmed, matching]
  simp

/-- A region goes if its delimiters match, unless it looks like a tag. -/
theorem replacement_false_of_matching {s : Snippet} (matching : s.closer = matchingMark s.opener)
    (noTag : ¬ "tpl:".toList <:+: s.body) : s.replacement false = [] := by
  unfold Snippet.replacement
  rw [isForeign_of_matching matching noTag]
  simp

theorem body_infix_of_snippet? {t rest : Text} {s : Snippet} (found : snippet? t = some (s, rest)) : s.body <:+: t := by
  refine ⟨['{', s.opener], [s.closer, '}'] ++ rest, ?_⟩
  rw [(snippet?_eq_some_iff.1 found).1]
  simp [Snippet.written]

/-- Where the written form of a region is cut in front of an opening delimiter, that delimiter stands in it
or behind it: the form does not end in a brace that opens. -/
theorem written_append_split {s : Snippet} {rest a tail : Text} {m : Char}
    (eq : s.written ++ rest = a ++ '{' :: m :: tail) :
    (∃ v, s.written = a ++ '{' :: m :: v) ∨ ∃ a', a = s.written ++ a' ∧ rest = a' ++ '{' :: m :: tail := by
  rcases List.append_eq_append_iff.1 eq with ⟨a', rfl, behind⟩ | ⟨c, written, behind⟩
  · exact .inr ⟨a', rfl, behind⟩
  · match c with
    | [] =>
      rw [List.append_nil] at written
      exact .inr ⟨[], by rw [List.append_nil, written], behind.symm⟩
    | [d] =>
      -- The last character of a region closes.
      have last : s.written.getLast? = some '}' := by
        have form : s.written = ('{' :: s.opener :: s.body ++ [s.closer]) ++ ['}'] := by simp [Snippet.written]
        rw [form, List.getLast?_concat]
      rw [written, List.getLast?_concat] at last
      obtain rfl := Option.some.inj last
      cases behind
    | d :: e :: v =>
      cases behind
      exact .inl ⟨v, written⟩

/-- An opening delimiter that is kept outside of all regions is one that nothing behind it closes. -/
theorem unclosed_of_kept {t tail : Text} {m : Char} {passLiterals : Bool} (nothing : snippet? ('{' :: t) = none)
    (opener : isOpenerMark m = true) (left : stripSnippets passLiterals t = m :: tail) : Unclosed tail := by
  rcases of_snippet?_eq_none nothing with literal | ⟨d, u, rfl, unclosed⟩
  · cases t with
    | nil =>
      rw [stripSnippets_nil] at left
      cases left
    | cons d u =>
      have plain : isOpenerMark d = false := literal
      have ne : d ≠ '{' := by
        rintro rfl
        cases plain
      rw [stripSnippets_cons (snippet?_of_ne ne u)] at left
      obtain ⟨rfl, -⟩ := List.cons.inj left
      rw [plain] at opener
      cases opener
  · rw [stripSnippets_cons_of_unclosed d unclosed] at left
    obtain ⟨-, rfl⟩ := List.cons.inj left
    exact unclosed

/-- **What is left was copied.**  In a stripped text without tags, an opening delimiter in front of a closing
one of any kind stands in a region whose delimiters do not match. -/
theorem copied_of_remnant {t : Text} (noTag : ¬ "tpl:".toList <:+: t) {a tail : Text} {m : Char}
    (opener : isOpenerMark m = true) (closed : ¬ Unclosed tail)
    (left : stripSnippets false t = a ++ '{' :: m :: tail) :
    ∃ before s after u v, Copied t before s after ∧ a = stripSnippets false before ++ u ∧
      s.written = u ++ '{' :: m :: v := by
  fun_induction stripSnippets false t generalizing a with
  | case1 t r rest found shorter ih =>
    have noTag' : ¬ "tpl:".toList <:+: rest := by
      intro lead
      apply noTag
      rw [(snippet?_eq_some_iff.1 found).1]
      exact lead.trans (List.suffix_append ..).isInfix
    have further {a' : Text} (left : stripSnippets false rest = a' ++ '{' :: m :: tail) :
        ∃ before s after u v, Copied t before s after ∧ r.replacement false ++ a' = stripSnippets false before ++ u ∧
          s.written = u ++ '{' :: m :: v := by
      obtain ⟨before, s, after, u, v, copied, rfl, written⟩ := ih noTag' left
      refine ⟨r.written ++ before, s, after, u, v, copied.behind_region found, ?_, written⟩
      rw [stripSnippets_of_snippet? (snippet?_written found before), List.append_assoc]
    by_cases matching : r.closer = matchingMark r.opener
    · have gone : r.replacement false = [] :=
        replacement_false_of_matching matching fun lead => noTag (lead.trans (body_infix_of_snippet? found))
      rw [gone, List.nil_append] at left
      simpa only [gone, List.nil_append] using further left
    · have kept : r.replacement false = r.written := by simp [Snippet.replacement, Snippet.isForeign, matching]
      rw [kept] at left
      rcases written_append_split left with ⟨v, written⟩ | ⟨a', rfl, behind⟩
      · refine ⟨[], r, rest, a, v, copied_head found matching, ?_, written⟩
        rw [stripSnippets_nil, List.nil_append]
      · rw [← kept]
        exact further behind
  | case2 => cases a <;> cases left
  | case3 c t nothing ih =>
    cases a with
    | cons d a =>
      obtain ⟨rfl, behind⟩ := List.cons.inj left
      have noTag' : ¬ "tpl:".toList <:+: t := fun lead => noTag (lead.trans (List.suffix_cons c t).isInfix)
      obtain ⟨before, s, after, u, v, copied, rfl, written⟩ := ih noTag' behind
      refine ⟨c :: before, s, after, u, v, copied.behind_char nothing, ?_, written⟩
      rw [stripSnippets_cons (copied.snippet?_front nothing)]
      rfl
    | nil =>
      -- A brace outside all regions: no mark follows it, or nothing behind it closes.
      obtain ⟨rfl, behind⟩ := List.cons.inj left
      exact absurd (unclosed_of_kept nothing opener behind) closed

/-! ## Sources without comments and tags -/

/-- Where no comment opens, none is removed. -/
theorem comment?_of_free {t : Text} (noComment : ¬ commentOpener <:+: t) (fresh : Bool) : comment? fresh t = none := by
  have free {u : Text} (part : u <:+ t) : dropLead? commentOpener u = none := by
    rw [Option.eq_none_iff_forall_ne_some]
    intro rest found
    apply noComment
    rw [dropLead?_eq_some_iff] at found
    exact List.IsInfix.trans ⟨[], rest, found.symm⟩ part.isInfix
  rw [comment?, wholeLine?, inline?, free (List.dropWhile_suffix ..), free (List.suffix_refl t)]
  simp

theorem removeComments_of_free {source : Text} (noComment : ¬ commentOpener <:+: source) :
    removeComments source = source := by
  unfold removeComments
  generalize true = fresh
  induction source generalizing fresh with
  | nil => exact removeCommentsFrom_nil fresh
  | cons c t ih =>
    have behind : ¬ commentOpener <:+: t := fun opener => noComment (opener.trans (List.suffix_cons c t).isInfix)
    rw [removeCommentsFrom]
    split
    · rename_i found
      rw [comment?_of_free noComment] at found
      cases found
    · show c :: removeCommentsFrom (c == '\n') t = c :: t
      rw [ih behind]

/-- **What stripping leaves of regions.**  If a source without comments and tags is stripped, an opening
delimiter in front of a closing one of any kind stands in a region that is taken over because its
delimiters do not match; and there is such a pair exactly if there is such a region. -/
theorem prepare_leaves {source : Text} (noComment : ¬ commentOpener <:+: source)
    (noTag : ¬ "tpl:".toList <:+: source) :
    (∀ a m b k c, isOpenerMark m = true → isCloserMark k = true →
        prepare ⟨true, false⟩ source = a ++ '{' :: m :: (b ++ k :: '}' :: c) →
      ∃ before s after u v, Copied source before s after ∧ a = stripSnippets false before ++ u ∧
        s.written = u ++ '{' :: m :: v) ∧
    ((∃ a m b k c, isOpenerMark m = true ∧ isCloserMark k = true ∧
        prepare ⟨true, false⟩ source = a ++ '{' :: m :: (b ++ k :: '}' :: c)) ↔
      ∃ s ∈ regions source, s.closer ≠ matchingMark s.opener) := by
  have prepared : prepare ⟨true, false⟩ source = stripSnippets false source := by
    show stripSnippets false (removeComments source) = stripSnippets false source
    rw [removeComments_of_free noComment]
  rw [prepared]
  have located (a : Text) (m : Char) (b : Text) (k : Char) (c : Text) (opener : isOpenerMark m = true)
      (closer : isCloserMark k = true) (left : stripSnippets false source = a ++ '{' :: m :: (b ++ k :: '}' :: c)) :
      ∃ before s after u v, Copied source before s after ∧ a = stripSnippets false before ++ u ∧
        s.written = u ++ '{' :: m :: v := by
    refine copied_of_remnant noTag opener (fun unclosed => ?_) left
    rw [unclosed b k c rfl] at closer
    cases closer
  refine ⟨located, ?_, ?_⟩
  · rintro ⟨a, m, b, k, c, opener, closer, left⟩
    obtain ⟨before, s, after, u, v, copied, -⟩ := located a m b k c opener closer left
    exact ⟨s, copied.region ▸ List.mem_append_right _ (List.mem_cons_self ..), copied.mismatched⟩
  · rintro ⟨s, mem, mismatched⟩
    obtain ⟨before, after, copied⟩ := exists_copied mem mismatched
    obtain ⟨opener, closer⟩ := marks_of_mem_regions mem
    refine ⟨stripSnippets false before, s.opener, s.body, s.closer, stripSnippets false after, opener, closer, ?_⟩
    rw [copied.stripped]
    simp [Snippet.written]

/-- A text with a region of each kind: one that goes, and one that is taken over with a closer behind it. -/
def mismatchedText : Text := "a\x7b\x7b x \x7d\x7db\x7b% y #\x7dc%\x7dd".toList

theorem prepare_leaves_mismatchedText :
    prepare ⟨true, false⟩ mismatchedText = "ab\x7b% y #\x7dc%\x7dd".toList ∧
    (∃ before s after u v, Copied mismatchedText before s after ∧ "ab".toList = stripSnippets false before ++ u ∧
      s.written = u ++ '{' :: '%' :: v) ∧
    ∃ s ∈ regions mismatchedText, s.closer ≠ matchingMark s.opener := by
  have kept : prepare ⟨true, false⟩ mismatchedText = "ab\x7b% y #\x7dc%\x7dd".toList := by decide +kernel
  have uncommented : ¬ commentOpener <:+: mismatchedText := by decide +kernel
  have untagged : ¬ "tpl:".toList <:+: mismatchedText := by decide +kernel
  have leaves := prepare_leaves uncommented untagged
  refine ⟨kept, leaves.1 "ab".toList '%' " y #\x7dc".toList '%' "d".toList rfl rfl kept, leaves.2.1 ?_⟩
  exact ⟨"ab".toList, '%', " y #\x7dc".toList, '%', "d".toList, rfl, rfl, kept⟩

/-- A closing delimiter in a string ends a region, and what follows it closes what is left. -/
theorem prepare_keeps_quoted_closer :
    ¬ commentOpener <:+: "\x7b\x7b \"%\x7d\" \x7d\x7d".toList ∧ ¬ "tpl:".toList <:+: "\x7b\x7b \"%\x7d\" \x7d\x7d".toList ∧
    prepare ⟨true, false⟩ "\x7b\x7b \"%\x7d\" \x7d\x7d".toList =
      "\x7b\x7b".toList ++ " \"%\x7d\" ".toList ++ "\x7d\x7d".toList := by
  decide +kernel

end TagTemplate.Source
