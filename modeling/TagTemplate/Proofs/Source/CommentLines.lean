/-
# Proofs.Source.CommentLines -- which comments are removed, and with what

A source is a sequence of comments and of characters outside all comments
(`items`): comments are found left to right and each runs to the first closer
after its opener.  Taken at its word, the rule for removing them reads off that
sequence line by line (`keptFrom`): a line that holds nothing but blanks and at
least one comment goes as a whole, line break included, and every other comment
goes alone.

`removeComments` keeps to this rule except in one situation, an `Overrun`: a
line starts with a comment and goes on after it, and further on in the source
there is a closer that ends its line.  The removal then runs to that closer and
takes the text in between with it.

* `keepsToRule`: what is kept is always a subsequence of what the rule keeps, so
  nothing is added or moved;
* `prepare_eq_withoutComments_iff`: the two agree exactly when there is no overrun.

Both follow by induction on the source, one comment line, comment or character
at a time.  An overrun loses text because it starts behind a character that the
rule keeps and ends at the start of a line, where the two are in step again
(`exists_keptFrom_append`).
-/
import Mathlib.Data.List.DropRight
import TagTemplate.Source.Prepare

namespace TagTemplate.Source

set_option autoImplicit false

open Text

/-! ## Comments and the characters between them -/

/-- A comment of a source, or a character outside all comments. -/
inductive Item where
  /-- A comment, with what is between its delimiters. -/
  | comment (body : Text)
  | char (c : Char)
  deriving DecidableEq, Repr

namespace Item

def written : Item → Text
  | .comment body => commentOpener ++ body ++ commentCloser
  | .char c => [c]

def isComment : Item → Bool
  | .comment _ => true
  | .char _ => false

/-- What a line of comments is made of: comments, and the blanks around them. -/
def isGap : Item → Bool
  | .comment _ => true
  | .char c => isBlank c

end Item

/-- The comment that starts at this place, up to its first closer, and the text after it. -/
def enclosed? (t : Text) : Option (Text × Text) :=
  (dropLead? commentOpener t).bind (cut? commentCloser)

theorem eq_of_enclosed? {t body rest : Text} (h : enclosed? t = some (body, rest)) :
    t = commentOpener ++ (body ++ commentCloser ++ rest) := by
  obtain ⟨u, hu, hc⟩ := Option.bind_eq_some_iff.mp h
  rw [dropLead?_eq_some_iff.mp hu, eq_of_cut? hc]

theorem length_of_enclosed? {t body rest : Text} (h : enclosed? t = some (body, rest)) :
    rest.length < t.length := by
  have := congrArg List.length (eq_of_enclosed? h)
  have : commentOpener.length = 6 := rfl
  simp only [List.length_append] at *
  omega

/-- The comments of a source, left to right, and the characters between them. -/
def items (t : Text) : List Item :=
  match h : enclosed? t with
  | some (body, rest) =>
    have := length_of_enclosed? h
    .comment body :: items rest
  | none =>
    match t with
    | [] => []
    | c :: t => .char c :: items t
termination_by t.length

/-! ## The rule -/

def lineBreak? : List Item → Option (List Item)
  | [] => some []
  | .char '\n' :: is => some is
  | .char '\r' :: .char '\n' :: is => some is
  | _ => none

/-- What follows a line that holds blanks and at least one comment, and nothing else. -/
def commentLine? (is : List Item) : Option (List Item) :=
  if (is.takeWhile Item.isGap).any Item.isComment then lineBreak? (is.dropWhile Item.isGap) else none

theorem commentLine?_eq_some_iff {is rest : List Item} :
    commentLine? is = some rest ↔ (is.takeWhile Item.isGap).any Item.isComment = true ∧
      lineBreak? (is.dropWhile Item.isGap) = some rest :=
  Option.ite_none_right_eq_some

theorem length_of_lineBreak? {is rest : List Item} (h : lineBreak? is = some rest) :
    rest.length ≤ is.length := by
  unfold lineBreak? at h
  split at h
  · obtain rfl := Option.some.inj h; simp
  · obtain rfl := Option.some.inj h; simp
  · obtain rfl := Option.some.inj h; simp only [List.length_cons]; omega
  · simp at h

theorem length_of_commentLine? {is rest : List Item} (h : commentLine? is = some rest) :
    rest.length < is.length := by
  obtain ⟨hc, hb⟩ := commentLine?_eq_some_iff.mp h
  obtain ⟨i, hi, -⟩ := List.any_eq_true.mp hc
  have nonempty := List.length_pos_of_mem hi
  have le := length_of_lineBreak? hb
  have split := congrArg List.length (List.takeWhile_append_dropWhile (p := Item.isGap) (l := is))
  rw [List.length_append] at split
  omega

/-- The text that the rule keeps; `fresh` says whether a line starts here. -/
def keptFrom (fresh : Bool) (is : List Item) : Text :=
  match h : (if fresh then commentLine? is else none) with
  | some rest =>
    have : rest.length < is.length := length_of_commentLine? (Option.ite_none_right_eq_some.mp h).2
    keptFrom true rest
  | none =>
    match is with
    | [] => []
    | .comment _ :: is => keptFrom false is
    | .char c :: is => c :: keptFrom (c == '\n') is
termination_by is.length

/-- A source without its comments, and without the lines that hold nothing else. -/
def withoutComments (source : Text) : Text := keptFrom true (items source)

/-- A line that starts with a comment and goes on after the last of the comments in front, with a
closer further on that ends its line. -/
def RunsOver (line : List Item) : Prop :=
  (line.takeWhile Item.isGap).any Item.isComment ∧ lineBreak? (line.dropWhile Item.isGap) = none ∧
    ∃ a b, (line.dropWhile Item.isGap).flatMap Item.written = a ++ commentCloser ++ b ∧
      (endOfLine? b).isSome

/-- Some line of a source runs over. -/
def Overrun (source : Text) : Prop :=
  ∃ before line, items source = before ++ line ∧
    (before = [] ∨ before.getLast? = some (.char '\n')) ∧ RunsOver line

/-! ## Reading items -/

theorem items_nil : items [] = [] := by
  rw [items]
  rfl

theorem items_enclosed {t body rest : Text} (h : enclosed? t = some (body, rest)) :
    items t = .comment body :: items rest := by
  rw [items]
  split
  · rename_i b r e
    obtain ⟨rfl, rfl⟩ := Prod.mk.inj (Option.some.inj (h.symm.trans e))
    rfl
  · rename_i e
    rw [h] at e
    cases e

theorem items_cons {c : Char} {t : Text} (h : enclosed? (c :: t) = none) :
    items (c :: t) = .char c :: items t := by
  rw [items]
  split
  · rename_i e
    rw [h] at e
    cases e
  · rfl

/-- Only one character starts a comment. -/
theorem enclosed?_cons_eq_none {c : Char} (t : Text) (ne : c ≠ '<') : enclosed? (c :: t) = none := by
  have : dropLead? commentOpener (c :: t) = none := by
    simp [dropLead?, commentOpener, Ne.symm ne]
  rw [enclosed?, this]
  rfl

theorem items_cons_of_ne {c : Char} (t : Text) (ne : c ≠ '<') :
    items (c :: t) = .char c :: items t :=
  items_cons (enclosed?_cons_eq_none t ne)

theorem ne_of_isBlank {c d : Char} (h : isBlank c = true) (hd : isBlank d = false) : c ≠ d := by
  rintro rfl
  rw [h] at hd
  cases hd

/-- Induction on a source: one comment or one character at a time. -/
theorem source_induction {P : Text → Prop} (nil : P [])
    (comment : ∀ t body rest, enclosed? t = some (body, rest) → P rest → P t)
    (char : ∀ c t, enclosed? (c :: t) = none → P t → P (c :: t)) (t : Text) : P t := by
  induction h : t.length using Nat.strongRecOn generalizing t with
  | _ n ih =>
    subst h
    cases e : enclosed? t with
    | some p => exact comment t p.1 p.2 e (ih _ (length_of_enclosed? e) _ rfl)
    | none =>
      cases t with
      | nil => exact nil
      | cons c t => exact char c t e (ih _ (by simp) _ rfl)

/-- Nothing of a source is lost in its items. -/
theorem flatMap_written_items (t : Text) : (items t).flatMap Item.written = t := by
  induction t using source_induction with
  | nil => rw [items_nil]; rfl
  | comment t body rest h ih =>
    rw [items_enclosed h, List.flatMap_cons, ih, eq_of_enclosed? h]
    simp [Item.written]
  | char c t h ih =>
    rw [items_cons h, List.flatMap_cons, ih]
    rfl

/-! ## The search for a closer that ends its line -/

/-- What follows a line that ends here, or else at the next closer that ends its line. -/
def lineEnd? (t : Text) : Option Text := (endOfLine? t).or (closeLine? t)

theorem closeLine?_cons (c : Char) (t : Text) :
    closeLine? (c :: t) = ((dropLead? commentCloser (c :: t)).bind endOfLine?).or (closeLine? t) := by
  rw [closeLine?]
  split
  · rename_i h; rw [h]; rfl
  · rename_i h; rw [h]; rfl

theorem closeLine?_cons_of_ne {c : Char} (t : Text) (ne : c ≠ '-') :
    closeLine? (c :: t) = closeLine? t := by
  have : dropLead? commentCloser (c :: t) = none := by
    simp [dropLead?, commentCloser, Ne.symm ne]
  rw [closeLine?_cons, this]
  rfl

theorem closeLine?_closer (t : Text) : closeLine? (commentCloser ++ t) = lineEnd? t := by
  have lead : dropLead? commentCloser (commentCloser ++ t) = some t := dropLead?_eq_some_iff.mpr rfl
  have tail : closeLine? ('-' :: '>' :: t) = closeLine? t := by
    rw [closeLine?_cons, closeLine?_cons_of_ne t (by decide)]
    rfl
  show closeLine? ('-' :: '-' :: '>' :: t) = _
  rw [closeLine?_cons, tail]
  show ((dropLead? commentCloser (commentCloser ++ t)).bind endOfLine?).or _ = _
  rw [lead]
  rfl

/-- No closer starts inside an opener. -/
theorem closeLine?_opener (t : Text) : closeLine? (commentOpener ++ t) = closeLine? t := by
  show closeLine? ('<' :: '!' :: '-' :: '-' :: ' ' :: '#' :: t) = _
  rw [closeLine?_cons_of_ne _ (by decide), closeLine?_cons_of_ne _ (by decide), closeLine?_cons,
    closeLine?_cons '-', closeLine?_cons_of_ne _ (by decide), closeLine?_cons_of_ne _ (by decide)]
  rfl

theorem closeLine?_of_cut? {t a b : Text} (h : cut? commentCloser t = some (a, b)) :
    closeLine? t = lineEnd? b := by
  induction t generalizing a with
  | nil => simp [cut?, commentCloser] at h
  | cons c t ih =>
    rw [cut?] at h
    split at h
    · rename_i rest hr
      obtain ⟨-, rfl⟩ := Prod.mk.inj (Option.some.inj h)
      rw [dropLead?_eq_some_iff.mp hr, closeLine?_closer]
    · rename_i hn
      obtain ⟨⟨x, y⟩, hc, e⟩ := Option.map_eq_some_iff.mp h
      obtain ⟨-, rfl⟩ := Prod.mk.inj e
      rw [closeLine?_cons, hn, ih hc]
      rfl

theorem closeLine?_of_cut?_eq_none {t : Text} (h : cut? commentCloser t = none) :
    closeLine? t = none := by
  induction t with
  | nil => rfl
  | cons c t ih =>
    rw [cut?] at h
    split at h
    · cases h
    · rename_i hn
      rw [closeLine?_cons, hn, ih (Option.map_eq_none_iff.mp h)]
      rfl

/-- The search enters no comment. -/
theorem closeLine?_of_enclosed? {t body rest : Text} (h : enclosed? t = some (body, rest)) :
    closeLine? t = lineEnd? rest := by
  obtain ⟨u, hu, hc⟩ := Option.bind_eq_some_iff.mp h
  rw [dropLead?_eq_some_iff.mp hu, closeLine?_opener, closeLine?_of_cut? hc]

theorem endOfLine?_blank {c : Char} (t : Text) (h : isBlank c = true) :
    endOfLine? (c :: t) = endOfLine? t := by
  rw [endOfLine?, endOfLine?, List.dropWhile_cons_of_pos h]

theorem endOfLine?_of_enclosed? {t body rest : Text} (h : enclosed? t = some (body, rest)) :
    endOfLine? t = none := by
  rw [eq_of_enclosed? h]
  rfl

theorem lineEnd?_blank {c : Char} (t : Text) (h : isBlank c = true) :
    lineEnd? (c :: t) = lineEnd? t := by
  rw [lineEnd?, endOfLine?_blank t h, closeLine?_cons_of_ne t (ne_of_isBlank h (by decide)), lineEnd?]

theorem lineEnd?_of_enclosed? {t body rest : Text} (h : enclosed? t = some (body, rest)) :
    lineEnd? t = lineEnd? rest := by
  rw [lineEnd?, endOfLine?_of_enclosed? h, closeLine?_of_enclosed? h]
  rfl

/-- The comments and blanks in front of a text do not matter to where its line ends. -/
theorem exists_lineEnd?_eq (t : Text) :
    ∃ r, items r = (items t).dropWhile Item.isGap ∧ lineEnd? t = lineEnd? r := by
  induction t using source_induction with
  | nil => exact ⟨[], by rw [items_nil]; rfl, rfl⟩
  | comment t body rest h ih =>
    obtain ⟨r, hr, he⟩ := ih
    refine ⟨r, ?_, (lineEnd?_of_enclosed? h).trans he⟩
    rw [items_enclosed h, hr, List.dropWhile_cons_of_pos rfl]
  | char c t h ih =>
    by_cases gap : (Item.char c).isGap
    · obtain ⟨r, hr, he⟩ := ih
      refine ⟨r, ?_, (lineEnd?_blank t gap).trans he⟩
      rw [items_cons h, hr, List.dropWhile_cons_of_pos gap]
    · exact ⟨c :: t, by rw [items_cons h, List.dropWhile_cons_of_neg gap], rfl⟩

/-- What a comment at the start of a line takes with it. -/
theorem exists_wholeLine?_eq (t : Text) :
    ∃ r, items r = (items t).dropWhile Item.isGap ∧
      wholeLine? t = if ((items t).takeWhile Item.isGap).any Item.isComment then lineEnd? r else none := by
  induction t using source_induction with
  | nil => exact ⟨[], by rw [items_nil]; rfl, by rw [items_nil]; rfl⟩
  | comment t body rest h ih =>
    obtain ⟨r, hr, he⟩ := exists_lineEnd?_eq rest
    refine ⟨r, ?_, ?_⟩
    · rw [items_enclosed h, hr, List.dropWhile_cons_of_pos rfl]
    · have line : wholeLine? t = closeLine? t := by
        rw [eq_of_enclosed? h, closeLine?_opener]
        rfl
      rw [items_enclosed h, List.takeWhile_cons_of_pos rfl, ← he, ← closeLine?_of_enclosed? h, line]
      rfl
  | char c t h ih =>
    by_cases gap : (Item.char c).isGap
    · obtain ⟨r, hr, he⟩ := ih
      have line : wholeLine? (c :: t) = wholeLine? t := by
        rw [wholeLine?, List.dropWhile_cons_of_pos (p := isBlank) gap, wholeLine?]
      refine ⟨r, ?_, ?_⟩
      · rw [items_cons h, hr, List.dropWhile_cons_of_pos gap]
      · rw [items_cons h, List.takeWhile_cons_of_pos gap, line, he]
        rfl
    · refine ⟨c :: t, by rw [items_cons h, List.dropWhile_cons_of_neg gap], ?_⟩
      rw [items_cons h, List.takeWhile_cons_of_neg gap, wholeLine?,
        List.dropWhile_cons_of_neg (p := isBlank) gap]
      -- An opener without a closer is text, and no closer that ends its line follows it either.
      cases hu : dropLead? commentOpener (c :: t) with
      | none => rfl
      | some u =>
        rw [enclosed?, hu] at h
        exact closeLine?_of_cut?_eq_none h

/-- Behind the comments and blanks in front, a line ends for the items where it ends for the text. -/
theorem lineBreak?_items {r : Text} (ends : (items r).dropWhile Item.isGap = items r) :
    lineBreak? (items r) = (endOfLine? r).map items := by
  cases r with
  | nil => rw [items_nil]; show some [] = some (items []); rw [items_nil]
  | cons c t =>
    cases h : enclosed? (c :: t) with
    | some p =>
      rw [items_enclosed h, List.dropWhile_cons_of_pos rfl] at ends
      have := congrArg List.length ends
      have := ((items p.2).dropWhile_sublist Item.isGap).length_le
      simp only [List.length_cons] at *
      omega
    | none =>
      have gap : ¬ isBlank c := by
        intro hb
        rw [items_cons h, List.dropWhile_cons_of_pos (a := Item.char c) hb] at ends
        have := congrArg List.length ends
        have := ((items t).dropWhile_sublist Item.isGap).length_le
        simp only [List.length_cons] at *
        omega
      rw [items_cons h, endOfLine?, List.dropWhile_cons_of_neg gap]
      by_cases lf : c = '\n'
      · subst lf; rfl
      by_cases cr : c = '\r'
      · subst cr
        cases t with
        | nil => rw [items_nil]; rfl
        | cons d u =>
          cases hd : enclosed? (d :: u) with
          | some p =>
            rw [items_enclosed hd, eq_of_enclosed? hd]
            rfl
          | none =>
            rw [items_cons hd]
            by_cases lf : d = '\n'
            · subst lf; rfl
            · simp [lineBreak?, lf]
      · simp [lineBreak?, lf, cr]

/-! ## Lines are in step at their starts -/

/-- Items end with a line break, and so does what is read up to the end of a line. -/
theorem exists_items_of_endOfLine? {t rest : Text} (h : endOfLine? t = some rest) :
    ∃ line, items t = line ++ items rest ∧ (rest = [] ∨ line.getLast? = some (.char '\n')) := by
  induction t with
  | nil =>
    obtain rfl := Option.some.inj h
    exact ⟨[], rfl, Or.inl rfl⟩
  | cons c t ih =>
    by_cases hb : isBlank c
    · rw [endOfLine?_blank t hb] at h
      obtain ⟨line, hl, he⟩ := ih h
      refine ⟨.char c :: line, ?_, he.imp_right fun e => ?_⟩
      · rw [items_cons_of_ne t (ne_of_isBlank hb (by decide)), hl]
        rfl
      · rw [List.getLast?_cons, e]
        rfl
    · rw [endOfLine?, List.dropWhile_cons_of_neg hb] at h
      split at h
      · rename_i e; cases e
      · rename_i r e
        obtain ⟨rfl, rfl⟩ := List.cons.inj e
        obtain rfl := Option.some.inj h
        exact ⟨[.char '\n'], items_cons_of_ne _ (by decide), Or.inr rfl⟩
      · rename_i r e
        obtain ⟨rfl, rfl⟩ := List.cons.inj e
        obtain rfl := Option.some.inj h
        refine ⟨[.char '\r', .char '\n'], ?_, Or.inr rfl⟩
        rw [items_cons_of_ne _ (by decide), items_cons_of_ne _ (by decide)]
        rfl
      · cases h

/-- The search for a closer that ends its line stops at the start of a line. -/
theorem exists_items_of_closeLine? {t rest : Text} (h : closeLine? t = some rest) :
    ∃ lines, items t = lines ++ items rest ∧ (rest = [] ∨ lines.getLast? = some (.char '\n')) := by
  induction t using source_induction with
  | nil => cases h
  | comment t body u hc ih =>
    rw [closeLine?_of_enclosed? hc, lineEnd?] at h
    have reached : ∃ lines, items u = lines ++ items rest ∧
        (rest = [] ∨ lines.getLast? = some (.char '\n')) := by
      rcases Option.or_eq_some_iff.mp h with e | ⟨-, e⟩
      · exact exists_items_of_endOfLine? e
      · exact ih e
    obtain ⟨lines, hl, he⟩ := reached
    refine ⟨.comment body :: lines, by rw [items_enclosed hc, hl]; rfl, he.imp_right fun e => ?_⟩
    rw [List.getLast?_cons, e]
    rfl
  | char c t hc ih =>
    rw [closeLine?_cons] at h
    rcases Option.or_eq_some_iff.mp h with e | ⟨-, e⟩
    · obtain ⟨u, hu, he⟩ := Option.bind_eq_some_iff.mp e
      obtain ⟨line, hl, hend⟩ := exists_items_of_endOfLine? he
      have closer : c :: t = '-' :: '-' :: '>' :: u := dropLead?_eq_some_iff.mp hu
      refine ⟨.char '-' :: .char '-' :: .char '>' :: line, ?_, hend.imp_right fun e => ?_⟩
      · rw [closer, items_cons_of_ne _ (by decide), items_cons_of_ne _ (by decide),
          items_cons_of_ne _ (by decide), hl]
        rfl
      · simp only [List.getLast?_cons, e, Option.getD_some]
    · obtain ⟨lines, hl, he⟩ := ih e
      refine ⟨.char c :: lines, by rw [items_cons hc, hl]; rfl, he.imp_right fun e => ?_⟩
      rw [List.getLast?_cons, e]
      rfl

/-! ## What the rule keeps -/

theorem keptFrom_line {is rest : List Item} (h : commentLine? is = some rest) :
    keptFrom true is = keptFrom true rest := by
  rw [keptFrom]
  split
  · rename_i r e
    rw [if_pos rfl, h] at e
    obtain rfl := Option.some.inj e
    rfl
  · rename_i e
    rw [if_pos rfl, h] at e
    cases e

theorem keptFrom_nil (fresh : Bool) : keptFrom fresh [] = [] := by
  rw [keptFrom]
  split
  · rename_i e
    cases (Option.ite_none_right_eq_some.mp e).2
  · rfl

theorem keptFrom_comment {fresh : Bool} {body : Text} {is : List Item}
    (h : fresh = true → commentLine? (.comment body :: is) = none) :
    keptFrom fresh (.comment body :: is) = keptFrom false is := by
  rw [keptFrom]
  split
  · rename_i e
    obtain ⟨hf, e⟩ := Option.ite_none_right_eq_some.mp e
    rw [h hf] at e
    cases e
  · rfl

theorem keptFrom_char {fresh : Bool} {c : Char} {is : List Item}
    (h : fresh = true → commentLine? (.char c :: is) = none) :
    keptFrom fresh (.char c :: is) = c :: keptFrom (c == '\n') is := by
  rw [keptFrom]
  split
  · rename_i e
    obtain ⟨hf, e⟩ := Option.ite_none_right_eq_some.mp e
    rw [h hf] at e
    cases e
  · rfl

/-- Behind comments and blanks that do not fill their line, no line starts. -/
theorem exists_keptFrom_gap (gap is : List Item) (hg : ∀ i ∈ gap, i.isGap = true) :
    ∃ kept, keptFrom false (gap ++ is) = kept ++ keptFrom false is := by
  induction gap with
  | nil => exact ⟨[], rfl⟩
  | cons i gap ih =>
    obtain ⟨kept, hk⟩ := ih fun i hi => hg i (List.mem_cons_of_mem _ hi)
    cases i with
    | comment body =>
      exact ⟨kept, by rw [List.cons_append, keptFrom_comment (by simp), hk]⟩
    | char c =>
      have hb : isBlank c = true := hg (.char c) List.mem_cons_self
      have : (c == '\n') = false := by
        simpa using ne_of_isBlank hb (d := '\n') (by decide)
      exact ⟨c :: kept, by rw [List.cons_append, keptFrom_char (by simp), this, hk]; rfl⟩

theorem getLast?_tail {i j : Item} {is : List Item} (h : (i :: is).getLast? = some j) :
    is = [] ∧ i = j ∨ is.getLast? = some j := by
  cases is with
  | nil => exact Or.inl ⟨rfl, by simpa using h⟩
  | cons k is => exact Or.inr (by rwa [List.getLast?_cons_cons] at h)

/-- A line that is removed ends within any front part of the items that ends in a line break. -/
theorem exists_of_lineBreak?_append {front is rest : List Item}
    (last : front.getLast? = some (.char '\n'))
    (h : lineBreak? ((front ++ is).dropWhile Item.isGap) = some rest) :
    ∃ front', rest = front' ++ is ∧ front'.length < front.length ∧
      (front' = [] ∨ front'.getLast? = some (.char '\n')) := by
  induction front with
  | nil => cases last
  | cons i front ih =>
    rw [List.cons_append] at h
    by_cases gap : i.isGap
    · rw [List.dropWhile_cons_of_pos gap] at h
      rcases getLast?_tail last with ⟨-, rfl⟩ | tail
      · exact absurd gap (by decide)
      · obtain ⟨front', hr, hl, he⟩ := ih tail h
        exact ⟨front', hr, by simp only [List.length_cons]; omega, he⟩
    · rw [List.dropWhile_cons_of_neg gap, lineBreak?.eq_def] at h
      split at h
      · rename_i e; cases e
      · rename_i e
        obtain ⟨rfl, rfl⟩ := List.cons.inj e
        obtain rfl := Option.some.inj h
        exact ⟨front, rfl, by simp, (getLast?_tail last).imp_left And.left⟩
      · rename_i u broken
        obtain ⟨rfl, e⟩ := List.cons.inj broken
        clear broken
        obtain rfl := Option.some.inj h
        rcases getLast?_tail last with ⟨-, other⟩ | tail
        · exact absurd other (by decide)
        · cases front with
          | nil => cases tail
          | cons j front =>
            rw [List.cons_append] at e
            obtain ⟨rfl, rfl⟩ := List.cons.inj e
            exact ⟨front, rfl, by simp only [List.length_cons]; omega,
              (getLast?_tail tail).imp_left And.left⟩
      · cases h

/-- At the start of a line the rule goes on as if the source started there. -/
theorem exists_keptFrom_append (fresh : Bool) {front : List Item} (is : List Item)
    (last : front.getLast? = some (.char '\n')) :
    ∃ kept, keptFrom fresh (front ++ is) = kept ++ keptFrom true is := by
  induction hn : front.length using Nat.strongRecOn generalizing front fresh with
  | _ n ih =>
    subst hn
    cases line : (if fresh then commentLine? (front ++ is) else none) with
    | some rest =>
      obtain ⟨rfl, line⟩ := Option.ite_none_right_eq_some.mp line
      obtain ⟨front', rfl, shorter, done⟩ :=
        exists_of_lineBreak?_append last (commentLine?_eq_some_iff.mp line).2
      rw [keptFrom_line line]
      rcases done with rfl | last'
      · exact ⟨[], rfl⟩
      · exact ih _ shorter true last' rfl
    | none =>
      have line : fresh = true → commentLine? (front ++ is) = none := by
        rintro rfl
        exact line
      cases front with
      | nil => cases last
      | cons i front =>
        rw [List.cons_append] at line ⊢
        rcases getLast?_tail last with ⟨rfl, rfl⟩ | tail
        · exact ⟨['\n'], keptFrom_char line⟩
        · cases i with
          | comment body =>
            obtain ⟨kept, hk⟩ := ih front.length (by simp) false tail rfl
            exact ⟨kept, by rw [keptFrom_comment line, hk]⟩
          | char c =>
            obtain ⟨kept, hk⟩ := ih front.length (by simp) (c == '\n') tail rfl
            exact ⟨c :: kept, by rw [keptFrom_char line, hk]; rfl⟩

/-- A line with something behind its comments keeps that: its text is not empty. -/
theorem exists_keptFrom_of_lineBreak?_eq_none {is : List Item}
    (comment : (is.takeWhile Item.isGap).any Item.isComment = true)
    (goes : lineBreak? (is.dropWhile Item.isGap) = none) :
    ∃ kept c rest, is.dropWhile Item.isGap = .char c :: rest ∧ c ≠ '\n' ∧
      keptFrom true is = kept ++ c :: keptFrom false rest := by
  obtain ⟨i, gap, hgap⟩ : ∃ i gap, is.takeWhile Item.isGap = i :: gap := by
    cases h : is.takeWhile Item.isGap with
    | nil => rw [h] at comment; cases comment
    | cons i gap => exact ⟨i, gap, rfl⟩
  have isGap : ∀ j ∈ i :: gap, j.isGap = true := fun j hj =>
    List.all_eq_true.mp (List.all_takeWhile (p := Item.isGap) (l := is)) j (hgap ▸ hj)
  have parts : is = i :: (gap ++ is.dropWhile Item.isGap) := by
    rw [← List.cons_append, ← hgap, List.takeWhile_append_dropWhile]
  have line : commentLine? is = none := by rw [commentLine?, if_pos comment, goes]
  obtain ⟨kept, hk⟩ := exists_keptFrom_gap gap (is.dropWhile Item.isGap)
    fun j hj => isGap j (List.mem_cons_of_mem _ hj)
  have first : ∃ kept, keptFrom true is = kept ++ keptFrom false (is.dropWhile Item.isGap) := by
    rw [parts] at line
    cases i with
    | comment body => exact ⟨kept, by rw [parts, keptFrom_comment fun _ => line, ← parts, hk]⟩
    | char c =>
      have hb : isBlank c = true := isGap (.char c) List.mem_cons_self
      have : (c == '\n') = false := by simpa using ne_of_isBlank hb (d := '\n') (by decide)
      refine ⟨c :: kept, ?_⟩
      rw [parts, keptFrom_char fun _ => line, this, ← parts, hk]
      rfl
  obtain ⟨kept, hk⟩ := first
  cases after : is.dropWhile Item.isGap with
  | nil => rw [after] at goes; cases goes
  | cons j rest =>
    have other : j.isGap = false := by
      have := List.head?_dropWhile_not Item.isGap is
      rw [after] at this
      simpa using this
    cases j with
    | comment body => cases other
    | char c =>
      have ne : c ≠ '\n' := by
        rintro rfl
        rw [after] at goes
        cases goes
      refine ⟨kept, c, rest, rfl, ne, ?_⟩
      have : (c == '\n') = false := by simpa using ne
      rw [hk, after, keptFrom_char (by simp), this]

/-! ## What the removal keeps -/

theorem inline?_eq (t : Text) : inline? t = (enclosed? t).map (·.2) := by
  rw [inline?, enclosed?, Option.map_bind]
  rfl

theorem removeCommentsFrom_line {t rest : Text} (h : wholeLine? t = some rest) :
    removeCommentsFrom true t = removeCommentsFrom true rest := by
  have found : comment? true t = some (true, rest) := by rw [comment?, if_pos rfl, h]
  rw [removeCommentsFrom]
  split
  · rename_i e
    obtain ⟨rfl, rfl⟩ := Prod.mk.inj (Option.some.inj (found.symm.trans e))
    rfl
  · rename_i e
    rw [found] at e
    cases e

theorem comment?_of_wholeLine?_eq_none {fresh : Bool} {t : Text}
    (h : fresh = true → wholeLine? t = none) :
    comment? fresh t = (enclosed? t).map fun p => (false, p.2) := by
  have none : (if fresh then wholeLine? t else none) = none := by
    cases fresh with
    | true => exact h rfl
    | false => rfl
  rw [comment?, none, inline?_eq, Option.map_map]
  rfl

theorem removeCommentsFrom_comment {fresh : Bool} {t body rest : Text}
    (h : fresh = true → wholeLine? t = none) (he : enclosed? t = some (body, rest)) :
    removeCommentsFrom fresh t = removeCommentsFrom false rest := by
  have found : comment? fresh t = some (false, rest) := by
    rw [comment?_of_wholeLine?_eq_none h, he]
    rfl
  rw [removeCommentsFrom]
  split
  · rename_i e
    obtain ⟨rfl, rfl⟩ := Prod.mk.inj (Option.some.inj (found.symm.trans e))
    rfl
  · rename_i e
    rw [found] at e
    cases e

theorem removeCommentsFrom_char {fresh : Bool} {c : Char} {t : Text}
    (h : fresh = true → wholeLine? (c :: t) = none) (he : enclosed? (c :: t) = none) :
    removeCommentsFrom fresh (c :: t) = c :: removeCommentsFrom (c == '\n') t := by
  have found : comment? fresh (c :: t) = none := by
    rw [comment?_of_wholeLine?_eq_none h, he]
    rfl
  rw [removeCommentsFrom]
  split
  · rename_i e
    rw [found] at e
    cases e
  · rfl

theorem removeCommentsFrom_nil (fresh : Bool) : removeCommentsFrom fresh [] = [] := by
  cases fresh <;> decide +kernel

/-! ## Overruns -/

/-- Some line runs over; `fresh` says whether a line starts here. -/
def OverrunFrom (fresh : Bool) (is : List Item) : Prop :=
  ∃ before line, is = before ++ line ∧
    (before = [] ∧ fresh = true ∨ before.getLast? = some (.char '\n')) ∧ RunsOver line

theorem overrunFrom_true_iff (source : Text) : OverrunFrom true (items source) ↔ Overrun source := by
  simp [OverrunFrom, Overrun]

theorem not_runsOver_nil : ¬ RunsOver [] := fun h => by cases h.1

theorem overrunFrom_cons (fresh : Bool) (i : Item) (is : List Item) :
    OverrunFrom fresh (i :: is) ↔
      fresh = true ∧ RunsOver (i :: is) ∨ OverrunFrom (i == .char '\n') is := by
  constructor
  · rintro ⟨before, line, parts, start, runs⟩
    cases before with
    | nil =>
      rcases start with ⟨-, fresh⟩ | last
      · exact Or.inl ⟨fresh, by rw [parts]; exact runs⟩
      · cases last
    | cons j before =>
      obtain ⟨rfl, rfl⟩ := List.cons.inj parts
      refine Or.inr ⟨before, line, rfl, ?_, runs⟩
      rcases start with ⟨nil, -⟩ | last
      · cases nil
      · exact (getLast?_tail last).imp_left fun ⟨nil, same⟩ => ⟨nil, by simp [same]⟩
  · rintro (⟨fresh, runs⟩ | ⟨before, line, rfl, start, runs⟩)
    · exact ⟨[], i :: is, rfl, Or.inl ⟨rfl, fresh⟩, runs⟩
    · refine ⟨i :: before, line, rfl, Or.inr ?_, runs⟩
      rcases start with ⟨rfl, same⟩ | last
      · simpa using same
      · rw [List.getLast?_cons, last]
        rfl

theorem not_overrunFrom_nil (fresh : Bool) : ¬ OverrunFrom fresh [] := by
  rintro ⟨before, line, parts, -, runs⟩
  obtain ⟨-, rfl⟩ := List.append_eq_nil_iff.mp parts.symm
  exact not_runsOver_nil runs

/-- A line of comments and blanks does not run over, whatever follows it. -/
theorem overrunFrom_of_commentLine? {is rest : List Item} (h : commentLine? is = some rest) :
    OverrunFrom true is ↔ OverrunFrom true rest := by
  obtain ⟨-, hb⟩ := commentLine?_eq_some_iff.mp h
  have own : ¬ RunsOver is := fun runs => by rw [runs.2.1] at hb; cases hb
  have gaps : ∀ gap js : List Item, (∀ i ∈ gap, i.isGap = true) →
      (OverrunFrom false (gap ++ js) ↔ OverrunFrom false js) := by
    intro gap js
    induction gap with
    | nil => exact fun _ => Iff.rfl
    | cons i gap ih =>
      intro hg
      have ne : (i == .char '\n') = false := by
        have := hg i List.mem_cons_self
        rw [beq_eq_false_iff_ne]
        rintro rfl
        cases this
      rw [List.cons_append, overrunFrom_cons, ne, ih fun j hj => hg j (List.mem_cons_of_mem _ hj)]
      simp
  have skip : OverrunFrom true is ↔ OverrunFrom false is := by
    cases is with
    | nil => simp [not_overrunFrom_nil]
    | cons i is => rw [overrunFrom_cons, overrunFrom_cons]; simp [own]
  rw [skip, ← List.takeWhile_append_dropWhile (p := Item.isGap) (l := is),
    gaps _ _ fun i hi => List.all_eq_true.mp List.all_takeWhile i hi]
  generalize is.dropWhile Item.isGap = after at hb
  rw [lineBreak?.eq_def] at hb
  split at hb
  · obtain rfl := Option.some.inj hb
    simp [not_overrunFrom_nil]
  · obtain rfl := Option.some.inj hb
    rw [overrunFrom_cons]
    simp
  · obtain rfl := Option.some.inj hb
    rw [overrunFrom_cons, overrunFrom_cons]
    simp
  · cases hb

/-- There is a closer that ends its line where the search for one succeeds. -/
theorem isSome_closeLine?_iff (t : Text) :
    (closeLine? t).isSome ↔ ∃ a b, t = a ++ commentCloser ++ b ∧ (endOfLine? b).isSome := by
  induction t with
  | nil => simp [closeLine?, commentCloser]
  | cons c t ih =>
    rw [closeLine?_cons, Option.isSome_or, Bool.or_eq_true, ih]
    constructor
    · rintro (h | ⟨a, b, rfl, hb⟩)
      · obtain ⟨rest, h⟩ := Option.isSome_iff_exists.mp h
        obtain ⟨u, hu, he⟩ := Option.bind_eq_some_iff.mp h
        exact ⟨[], u, dropLead?_eq_some_iff.mp hu, by rw [he]; rfl⟩
      · exact ⟨c :: a, b, rfl, hb⟩
    · rintro ⟨a, b, parts, hb⟩
      cases a with
      | nil =>
        rw [List.nil_append] at parts
        rw [dropLead?_eq_some_iff.mpr parts]
        exact Or.inl hb
      | cons d a =>
        obtain ⟨rfl, rfl⟩ := List.cons.inj parts
        exact Or.inr ⟨a, b, rfl, hb⟩

theorem runsOver_iff {t r : Text} (hr : items r = (items t).dropWhile Item.isGap) :
    RunsOver (items t) ↔ ((items t).takeWhile Item.isGap).any Item.isComment = true ∧
      lineBreak? (items r) = none ∧ (closeLine? r).isSome := by
  rw [RunsOver, ← hr, flatMap_written_items, isSome_closeLine?_iff]

/-! ## The removal against the rule -/

/-- What is kept is a subsequence of what the rule keeps, and all of it unless some line runs over. -/
def KeepsToRule (fresh : Bool) (t : Text) : Prop :=
  (removeCommentsFrom fresh t).Sublist (keptFrom fresh (items t)) ∧
    (removeCommentsFrom fresh t = keptFrom fresh (items t) ↔ ¬ OverrunFrom fresh (items t))

/-- Where no line is removed, one comment or one character is dealt with as the rule says. -/
theorem keepsToRule_of_eq_none {fresh : Bool} {t : Text}
    (whole : fresh = true → wholeLine? t = none)
    (line : fresh = true → commentLine? (items t) = none)
    (runs : fresh = true → ¬ RunsOver (items t))
    (ih : ∀ u, u.length < t.length → ∀ fresh, KeepsToRule fresh u) : KeepsToRule fresh t := by
  have later : ∀ i is, items t = i :: is →
      (OverrunFrom fresh (items t) ↔ OverrunFrom (i == .char '\n') is) := by
    intro i is parts
    rw [parts, overrunFrom_cons, ← parts]
    exact or_iff_right fun h => runs h.1 h.2
  cases he : enclosed? t with
  | some p =>
    obtain ⟨sub, eq⟩ := ih p.2 (length_of_enclosed? he) false
    have parts : items t = .comment p.1 :: items p.2 := items_enclosed he
    have kept : keptFrom fresh (items t) = keptFrom false (items p.2) := by
      rw [parts] at line ⊢
      exact keptFrom_comment line
    rw [KeepsToRule, removeCommentsFrom_comment whole he, kept, later _ _ parts]
    exact ⟨sub, eq⟩
  | none =>
    cases t with
    | nil =>
      rw [KeepsToRule, removeCommentsFrom_nil, items_nil, keptFrom_nil]
      exact ⟨List.Sublist.refl _, by simp [not_overrunFrom_nil]⟩
    | cons c t =>
      obtain ⟨sub, eq⟩ := ih t (by simp) (c == '\n')
      have parts : items (c :: t) = .char c :: items t := items_cons he
      have kept : keptFrom fresh (items (c :: t)) = c :: keptFrom (c == '\n') (items t) := by
        rw [parts] at line ⊢
        exact keptFrom_char line
      have same : (Item.char c == Item.char '\n') = (c == '\n') := by
        rw [Bool.eq_iff_iff]
        simp
      rw [KeepsToRule, removeCommentsFrom_char whole he, kept, later _ _ parts, same, List.cons_inj_right]
      exact ⟨sub.cons_cons c, eq⟩

/-- An overrun takes text away that the rule keeps. -/
theorem keepsToRule_of_overrun {t r rest : Text} (hr : items r = (items t).dropWhile Item.isGap)
    (whole : wholeLine? t = some rest) (close : closeLine? r = some rest)
    (runs : RunsOver (items t)) (ih : KeepsToRule true rest) : KeepsToRule true t := by
  obtain ⟨kept, c, after, parts, ne, hk⟩ := exists_keptFrom_of_lineBreak?_eq_none runs.1 runs.2.1
  -- Behind the character that is kept, the rule reaches the start of the line where the removal stops.
  have reached : ∃ more, keptFrom false after = more ++ keptFrom true (items rest) := by
    obtain ⟨lines, hl, ends⟩ := exists_items_of_closeLine? close
    rw [← hr, hl] at parts
    rcases ends with rfl | last
    · exact ⟨keptFrom false after, by rw [items_nil, keptFrom_nil, List.append_nil]⟩
    · cases lines with
      | nil => cases last
      | cons i lines =>
        obtain ⟨rfl, rfl⟩ := List.cons.inj parts
        rcases getLast?_tail last with ⟨-, same⟩ | tail
        · exact absurd (Item.char.inj same) ne
        · exact exists_keptFrom_append false _ tail
  obtain ⟨more, hm⟩ := reached
  have sub : (removeCommentsFrom true t).Sublist (more ++ keptFrom true (items rest)) := by
    rw [removeCommentsFrom_line whole]
    exact ih.1.trans (List.sublist_append_right _ _)
  rw [KeepsToRule, hk, hm]
  refine ⟨(sub.cons c).trans (List.sublist_append_right _ _), ?_⟩
  have overrun : OverrunFrom true (items t) := ⟨[], items t, rfl, Or.inl ⟨rfl, rfl⟩, runs⟩
  refine iff_of_false (fun same => ?_) (fun no => no overrun)
  have le := sub.length_le
  have := congrArg List.length same
  simp only [List.length_append, List.length_cons] at this le
  omega

theorem keepsToRule (fresh : Bool) (t : Text) : KeepsToRule fresh t := by
  induction hn : t.length using Nat.strongRecOn generalizing t fresh with
  | _ n ih =>
    subst hn
    have ih : ∀ u, u.length < t.length → ∀ fresh, KeepsToRule fresh u :=
      fun u shorter fresh => ih _ shorter fresh u rfl
    cases fresh with
    | false => exact keepsToRule_of_eq_none (by simp) (by simp) (by simp) ih
    | true =>
      obtain ⟨r, hr, whole⟩ := exists_wholeLine?_eq t
      have ends : lineBreak? ((items t).dropWhile Item.isGap) = (endOfLine? r).map items := by
        rw [← hr]
        exact lineBreak?_items (by rw [hr, List.dropWhile_idempotent])
      by_cases comment : ((items t).takeWhile Item.isGap).any Item.isComment = true
      · rw [if_pos comment, lineEnd?] at whole
        cases line : endOfLine? r with
        | some rest =>
          rw [line] at whole ends
          have removed : commentLine? (items t) = some (items rest) :=
            commentLine?_eq_some_iff.mpr ⟨comment, ends⟩
          have found : comment? true t = some (true, rest) := by rw [comment?, if_pos rfl, whole]; rfl
          obtain ⟨sub, eq⟩ := ih rest (length_of_comment? found) true
          rw [KeepsToRule, removeCommentsFrom_line whole, keptFrom_line removed,
            overrunFrom_of_commentLine? removed]
          exact ⟨sub, eq⟩
        | none =>
          rw [line] at whole ends
          have kept : commentLine? (items t) = none := by rw [commentLine?, if_pos comment, ends]; rfl
          cases close : closeLine? r with
          | some rest =>
            rw [close] at whole
            have found : comment? true t = some (true, rest) := by
              rw [comment?, if_pos rfl, whole]; rfl
            have runs : RunsOver (items t) :=
              (runsOver_iff hr).mpr ⟨comment, by rw [hr, ends]; rfl, by rw [close]; rfl⟩
            exact keepsToRule_of_overrun hr whole close runs (ih rest (length_of_comment? found) true)
          | none =>
            rw [close] at whole
            refine keepsToRule_of_eq_none (fun _ => whole) (fun _ => kept) (fun _ runs => ?_) ih
            have := ((runsOver_iff hr).mp runs).2.2
            rw [close] at this
            cases this
      · rw [if_neg comment] at whole
        exact keepsToRule_of_eq_none (fun _ => whole) (fun _ => by rw [commentLine?, if_neg comment])
          (fun _ runs => comment runs.1) ih

/-- **Comments and comment lines, and nothing else.**  Preparing a source without stripping removes
what the rule says, exactly when no comment line overruns; in any case nothing is added or moved. -/
theorem prepare_eq_withoutComments_iff (passLiterals : Bool) (source : Text) :
    (prepare ⟨false, passLiterals⟩ source = withoutComments source ↔ ¬ Overrun source) ∧
      (prepare ⟨false, passLiterals⟩ source).Sublist (withoutComments source) := by
  obtain ⟨sub, eq⟩ := keepsToRule true source
  rw [overrunFrom_true_iff] at eq
  exact ⟨eq, sub⟩

/-- The text between two comments is lost where the second one ends its line. -/
theorem prepare_loses_text :
    prepare ⟨false, true⟩ "<!-- # a --> text\n<!-- # b -->\n".toList = [] ∧
      withoutComments "<!-- # a --> text\n<!-- # b -->\n".toList = " text\n".toList := by
  decide +kernel

end TagTemplate.Source
