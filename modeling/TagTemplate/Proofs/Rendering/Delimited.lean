/-
# Proofs.Rendering.Delimited -- a statement with any text behind

A statement ends with its closing delimiter, so what it begins is the same with any text
behind it (`special?_append`).

A raw region ends with the first `endraw` statement, and for that it has to be known
where there is none.  The shape of a statement that is only a word says so (`IsBare`): it
has one closing brace, which is its last character.  Where it stands in a longer text, it
stands in the shorter one, if that has a closing brace (`isSome_endraw?_of_mem`) or is
followed by a character that no such statement has (`exists_eq_append_of_not_mem`).
-/
import TagTemplate.Proofs.Rendering.Locality

namespace TagTemplate

set_option autoImplicit false

open Text

variable {t rest : Text}

/-! ## Statements that are only a word -/

namespace Piece

open Expression (isGap skip name? skip_append mem_skip name?_append takes_skip takes_name?)

theorem close?_eq_some_iff {k : Char} (plain : k ≠ '-' ∧ k ≠ '+') {delimiter : Text} {removes : Bool} :
    close? (k :: delimiter) t = some (removes, rest) ↔
      ∃ sign ∈ signs, t = sign ++ (k :: delimiter ++ rest) ∧ removes = decide (sign = ['-']) := by
  refine ⟨exists_of_close?, ?_⟩
  rintro ⟨sign, mem, rfl, rfl⟩
  have dropped : dropLead? (k :: delimiter) (k :: delimiter ++ rest) = some rest := dropLead?_eq_some_iff.2 rfl
  rcases mem_signs_iff.1 mem with rfl | rfl | rfl
  · rw [List.nil_append]
    unfold close?
    split
    · rename_i eq
      exact absurd (List.cons.inj eq).1 plain.1
    · rename_i eq
      exact absurd (List.cons.inj eq).1 plain.2
    · rw [dropped]
      rfl
  · show (dropLead? (k :: delimiter) (k :: delimiter ++ rest)).map _ = _
    rw [dropped]
    rfl
  · show (dropLead? (k :: delimiter) (k :: delimiter ++ rest)).map _ = _
    rw [dropped]
    rfl

theorem close?_append {k : Char} (plain : k ≠ '-' ∧ k ≠ '+') {delimiter : Text} {removes : Bool}
    (found : close? (k :: delimiter) t = some (removes, rest)) (u : Text) :
    close? (k :: delimiter) (t ++ u) = some (removes, rest ++ u) := by
  obtain ⟨sign, mem, rfl, same⟩ := (close?_eq_some_iff plain).1 found
  exact (close?_eq_some_iff plain).2 ⟨sign, mem, by simp, same⟩

/-- A statement that is only a word, from behind its opening delimiter and the sign there. -/
def IsBare (word s : Text) (removes : Bool) : Prop :=
  ∃ gap gap', (∀ c ∈ gap ++ gap', isGap c = true) ∧ ∃ sign ∈ signs,
    s = gap ++ (word ++ (gap' ++ (sign ++ ['%', '}']))) ∧ removes = decide (sign = ['-'])

theorem skip_of_gap {gap : Text} (gaps : ∀ c ∈ gap, isGap c = true) (t : Text) : skip (gap ++ t) = skip t :=
  List.dropWhile_append_of_pos gaps

theorem skip_of_not_gap {c : Char} (word : isGap c = false) (t : Text) : skip (c :: t) = c :: t :=
  List.dropWhile_cons_of_neg (by simp [word])

theorem bareStatement?_eq_some_iff {word : Text} (first : word.head?.map isGap = some false) {removes : Bool} :
    bareStatement? word t = some (removes, rest) ↔ ∃ s, IsBare word s removes ∧ t = s ++ rest := by
  have percent : '%' ≠ '-' ∧ '%' ≠ '+' := by decide
  unfold bareStatement?
  constructor
  · intro found
    obtain ⟨t₁, dropped, closed⟩ := Option.bind_eq_some_iff.1 found
    obtain ⟨sign, mem, split, same⟩ := (close?_eq_some_iff percent).1 closed
    obtain ⟨gap, before, gaps⟩ := Expression.exists_skip t
    obtain ⟨gap', after, gaps'⟩ := Expression.exists_skip t₁
    refine ⟨_, ⟨gap, gap', fun c mem => ?_, sign, mem, rfl, same⟩, ?_⟩
    · exact (List.mem_append.1 mem).elim (gaps c) (gaps' c)
    · rw [before, dropLead?_eq_some_iff.1 dropped, after, split]
      simp
  · rintro ⟨_, ⟨gap, gap', gaps, sign, mem, rfl, same⟩, rfl⟩
    have gaps' : ∀ c ∈ gap', isGap c = true := fun c mem => gaps c (List.mem_append_right _ mem)
    refine Option.bind_eq_some_iff.2 ⟨gap' ++ (sign ++ ['%', '}'] ++ rest), ?_, ?_⟩
    · rw [List.append_assoc, skip_of_gap fun c mem => gaps c (List.mem_append_left _ mem)]
      refine dropLead?_eq_some_iff.2 ?_
      cases word with
      | nil => cases first
      | cons c word =>
        rw [List.cons_append, List.cons_append, skip_of_not_gap (Option.some.inj first)]
        simp
    · have closer : skip (sign ++ (['%', '}'] ++ rest)) = sign ++ (['%', '}'] ++ rest) := by
        rcases mem_signs_iff.1 mem with rfl | rfl | rfl <;> exact skip_of_not_gap (by decide) _
      rw [statementEnd?, skip_of_gap gaps', List.append_assoc, closer]
      exact (close?_eq_some_iff percent).2 ⟨sign, mem, rfl, same⟩

theorem bareStatement?_append {word : Text} (first : word.head?.map isGap = some false) {removes : Bool}
    (found : bareStatement? word t = some (removes, rest)) (u : Text) :
    bareStatement? word (t ++ u) = some (removes, rest ++ u) := by
  obtain ⟨s, bare, rfl⟩ := (bareStatement?_eq_some_iff first).1 found
  exact (bareStatement?_eq_some_iff first).2 ⟨s, bare, List.append_assoc ..⟩

/-- A statement that is only a word ends with a closing brace.  What else there is are gaps, the word, signs and
the mark of the delimiter. -/
theorem IsBare.exists_eq {word s : Text} {removes : Bool} (bare : IsBare word s removes) :
    ∃ lead, s = lead ++ ['}'] ∧ ∀ k, isGap k = false → k ∉ word → k ∉ ['-', '+', '%'] → k ∉ lead := by
  obtain ⟨gap, gap', gaps, sign, mem, rfl, -⟩ := bare
  refine ⟨gap ++ (word ++ (gap' ++ (sign ++ ['%']))), by simp, fun k no_gap absent plain inside => ?_⟩
  simp only [List.mem_append, List.mem_singleton] at inside gaps
  have not_gap : ¬ (k ∈ gap ∨ k ∈ gap') := fun mem => by
    rw [gaps k mem] at no_gap
    cases no_gap
  rcases inside with inside | inside | inside | inside | rfl
  · exact not_gap (.inl inside)
  · exact absent inside
  · exact not_gap (.inr inside)
  · rcases eq_of_mem_sign mem inside with rfl | rfl <;> exact plain (by decide)
  · exact plain (by decide)

/-! ## Statements that a text is cut off behind -/

variable {s lead u r : Text}

/-- What ends with the first closing brace stands in a text that has one. -/
theorem exists_eq_append_of_mem (ends : s = lead ++ ['}']) (absent : '}' ∉ lead) (split : t ++ u = s ++ r)
    (mem : '}' ∈ t) : ∃ r', t = s ++ r' := by
  rcases List.append_eq_append_iff.1 split with ⟨more, whole, -⟩ | ⟨more, whole, -⟩
  · rcases List.eq_nil_or_concat more with rfl | ⟨more, c, rfl⟩
    · exact ⟨[], by rw [whole, List.append_nil, List.append_nil]⟩
    · rw [ends, List.concat_eq_append, ← List.append_assoc] at whole
      rw [(List.append_inj' whole rfl).1] at absent
      exact absurd (List.mem_append_left _ mem) absent
  · exact ⟨more, whole⟩

/-- What has no character of a kind stands in front of the first one. -/
theorem exists_eq_append_of_not_mem {k : Char} (absent : k ∉ s) (split : t ++ k :: u = s ++ r) :
    ∃ r', t = s ++ r' := by
  rcases List.append_eq_append_iff.1 split with ⟨more, rfl, rest⟩ | ⟨more, whole, -⟩
  · cases more with
    | nil => exact ⟨[], by simp⟩
    | cons c more =>
      obtain ⟨rfl, -⟩ := List.cons.inj rest
      exact absurd (List.mem_append_right _ (List.mem_cons_self ..)) absent
  · exact ⟨more, whole⟩

/-- A statement that is only a word stands in a shorter text as well, if that has a brace to close it. -/
theorem isSome_bareStatement?_of_mem {word : Text} (first : word.head?.map isGap = some false)
    (plain : '}' ∉ word) (found : (bareStatement? word (t ++ u)).isSome = true) (mem : '}' ∈ t) :
    (bareStatement? word t).isSome = true := by
  obtain ⟨⟨removes, r⟩, found⟩ := Option.isSome_iff_exists.1 found
  obtain ⟨s, bare, split⟩ := (bareStatement?_eq_some_iff first).1 found
  obtain ⟨lead, eq, absent⟩ := bare.exists_eq
  obtain ⟨r', rfl⟩ := exists_eq_append_of_mem eq (absent '}' (by decide) plain (by decide)) split mem
  rw [(bareStatement?_eq_some_iff first).2 ⟨s, bare, rfl⟩]
  rfl

/-! ## Raw regions -/

theorem afterOpener_of_ne {m c : Char} (minus : c ≠ '-') (plus : c ≠ '+') (t : Text) :
    afterOpener ('{' :: m :: c :: t) = c :: t := by
  unfold afterOpener
  split
  · rename_i eq
    exact absurd (List.cons.inj eq).1 minus
  · rename_i eq
    exact absurd (List.cons.inj eq).1 plus
  · rfl

/-- An `endraw` statement. -/
def IsEndraw (s : Text) (removes : Bool) : Prop :=
  ∃ sign ∈ signs, ∃ inner, IsBare "endraw".toList inner removes ∧ s = '{' :: '%' :: (sign ++ inner)

theorem endraw?_eq_some_iff {removes : Bool} :
    endraw? t = some (removes, rest) ↔ ∃ s, IsEndraw s removes ∧ t = s ++ rest := by
  constructor
  · intro found
    unfold endraw? at found
    split at found
    · rename_i t
      obtain ⟨inner, bare, split⟩ := (bareStatement?_eq_some_iff (by decide)).1 found
      obtain ⟨sign, mem, before⟩ := exists_afterOpener '%' t
      refine ⟨_, ⟨sign, mem, inner, bare, rfl⟩, ?_⟩
      rw [split] at before
      rw [before]
      simp
    · cases found
  · rintro ⟨_, ⟨sign, mem, inner, bare, rfl⟩, rfl⟩
    have after : afterOpener ('{' :: '%' :: (sign ++ (inner ++ rest))) = inner ++ rest := by
      rcases mem_signs_iff.1 mem with rfl | rfl | rfl
      · obtain ⟨gap, gap', gaps, sign, -, rfl, -⟩ := bare
        cases gap with
        | nil => rfl
        | cons c gap =>
          have is_gap : isGap c = true := gaps c (List.mem_cons_self ..)
          refine afterOpener_of_ne ?_ ?_ _
          · rintro rfl
            cases is_gap
          · rintro rfl
            cases is_gap
      · rfl
      · rfl
    show bareStatement? "endraw".toList (afterOpener ('{' :: '%' :: (sign ++ inner ++ rest))) = _
    rw [List.append_assoc, after]
    exact (bareStatement?_eq_some_iff (by decide)).2 ⟨inner, bare, rfl⟩

theorem endraw?_append {removes : Bool} (found : endraw? t = some (removes, rest)) (u : Text) :
    endraw? (t ++ u) = some (removes, rest ++ u) := by
  obtain ⟨s, ends, rfl⟩ := endraw?_eq_some_iff.1 found
  exact endraw?_eq_some_iff.2 ⟨s, ends, List.append_assoc ..⟩

theorem IsEndraw.exists_eq {removes : Bool} (ends : IsEndraw s removes) :
    ∃ lead, s = lead ++ ['}'] ∧ '}' ∉ lead ∧ ':' ∉ lead := by
  obtain ⟨sign, mem, inner, bare, rfl⟩ := ends
  obtain ⟨lead, rfl, absent⟩ := bare.exists_eq
  have unsigned {k : Char} (minus : k ≠ '-') (plus : k ≠ '+') : k ∉ sign := fun inside =>
    (eq_of_mem_sign mem inside).elim minus plus
  have closing := absent '}' (by decide) (by decide) (by decide)
  have colon := absent ':' (by decide) (by decide) (by decide)
  refine ⟨'{' :: '%' :: (sign ++ lead), by simp, ?_, ?_⟩
  · simp [closing, unsigned (k := '}') (by decide) (by decide)]
  · simp [colon, unsigned (k := ':') (by decide) (by decide)]

/-- An `endraw` statement of a longer text is one of the text itself, if that has a brace to close it. -/
theorem isSome_endraw?_of_mem (found : (endraw? (t ++ u)).isSome = true) (mem : '}' ∈ t) :
    (endraw? t).isSome = true := by
  obtain ⟨⟨removes, r⟩, found⟩ := Option.isSome_iff_exists.1 found
  obtain ⟨s, ends, split⟩ := endraw?_eq_some_iff.1 found
  obtain ⟨lead, eq, absent, -⟩ := ends.exists_eq
  obtain ⟨r', rfl⟩ := exists_eq_append_of_mem eq absent split mem
  rw [endraw?_eq_some_iff.2 ⟨s, ends, rfl⟩]
  rfl

theorem exists_of_untilEndraw? {body : Text} (found : untilEndraw? t = some (body, rest)) :
    t = body ++ rest ∧ (endraw? rest).isSome = true := by
  induction t generalizing body with
  | nil => cases found
  | cons c t ih =>
    rw [untilEndraw?] at found
    split at found
    · rename_i here
      cases found
      exact ⟨rfl, here⟩
    · obtain ⟨⟨body', r⟩, found', eq⟩ := Option.map_eq_some_iff.1 found
      cases eq
      obtain ⟨rfl, ends⟩ := ih found'
      exact ⟨rfl, ends⟩

theorem untilEndraw?_append {body : Text} (found : untilEndraw? t = some (body, rest)) (u : Text) :
    untilEndraw? (t ++ u) = some (body, rest ++ u) := by
  induction t generalizing body with
  | nil => cases found
  | cons c t ih =>
    have mem : '}' ∈ c :: t := by
      obtain ⟨split, ends⟩ := exists_of_untilEndraw? found
      obtain ⟨⟨removes, r⟩, ends⟩ := Option.isSome_iff_exists.1 ends
      obtain ⟨lead, rfl, -⟩ := exists_of_endraw? ends
      rw [split]
      simp
    rw [untilEndraw?] at found
    rw [List.cons_append, untilEndraw?, ← List.cons_append]
    split at found
    · rename_i here
      cases found
      obtain ⟨⟨removes, r⟩, here⟩ := Option.isSome_iff_exists.1 here
      rw [endraw?_append here]
      rfl
    · rename_i nowhere
      obtain ⟨⟨body', r⟩, found', eq⟩ := Option.map_eq_some_iff.1 found
      cases eq
      rw [if_neg fun here => nowhere (isSome_endraw?_of_mem here mem), ih found']
      rfl

theorem afterOpener_append (m : Char) (nonempty : t ≠ []) (u : Text) :
    afterOpener ('{' :: m :: (t ++ u)) = afterOpener ('{' :: m :: t) ++ u := by
  cases t with
  | nil => exact absurd rfl nonempty
  | cons c t =>
    by_cases minus : c = '-'
    · subst minus
      rfl
    · by_cases plus : c = '+'
      · subst plus
        rfl
      · rw [List.cons_append, afterOpener_of_ne minus plus, afterOpener_of_ne minus plus, List.cons_append]

theorem removesBefore_append (long : 2 < t.length) (u : Text) : removesBefore (t ++ u) = removesBefore t := by
  match t, long with
  | c :: d :: e :: t, _ =>
    unfold removesBefore
    rw [List.cons_append, List.cons_append, opens_cons_cons c d _ (e :: t)]
    rfl

theorem raw?_append {p : Piece} {removes : Bool} (found : raw? t = some (p, removes, rest)) (u : Text) :
    raw? (t ++ u) = some (p, removes, rest ++ u) := by
  obtain ⟨⟨removesStart, t₁⟩, begins, found₁⟩ := Option.bind_eq_some_iff.1 found
  obtain ⟨⟨body, t₂⟩, until_, found₂⟩ := Option.bind_eq_some_iff.1 found₁
  obtain ⟨⟨removes', r⟩, ends, eq⟩ := Option.bind_eq_some_iff.1 found₂
  cases eq
  have long : 2 < t₂.length := by
    obtain ⟨lead, rfl, -⟩ := exists_of_endraw? ends
    simp only [List.length_cons, List.length_append]
    omega
  rw [raw?, bareStatement?_append (by decide) begins]
  simp only [Option.bind_eq_bind, Option.bind_some, untilEndraw?_append until_, endraw?_append ends,
    removesBefore_append long]
  rfl

/-! ## All statements -/

theorem statementEnd?_append {removes : Bool} (found : statementEnd? t = some (removes, rest)) (u : Text) :
    statementEnd? (t ++ u) = some (removes, rest ++ u) := by
  have mem : '}' ∈ t := (takes_statementEnd? found).mem (by simp)
  rw [statementEnd?, skip_append mem]
  exact close?_append (by decide) found u

theorem print?_append {p : Piece} {removes : Bool} (found : print? t = some (p, removes, rest)) (u : Text) :
    print? (t ++ u) = some (p, removes, rest ++ u) := by
  obtain ⟨⟨e, t₁⟩, read, found₁⟩ := Option.bind_eq_some_iff.1 found
  obtain ⟨⟨r, t₂⟩, closed, eq⟩ := Option.bind_eq_some_iff.1 found₁
  cases eq
  have mem : '}' ∈ t₁ := (takes_close? closed).mem (by simp)
  rw [print?, Expression.read?_append read mem]
  simp only [Option.bind_eq_bind, Option.bind_some, close?_append (by decide) closed u]
  rfl

theorem words?_append {first : List Text} {second : Text} {present : Bool}
    (found : words? first second t = some (present, rest)) (mem : '}' ∈ rest) (u : Text) :
    words? first second (t ++ u) = some (present, rest ++ u) := by
  have mem' : '}' ∈ t := (takes_words? found).mem mem
  unfold words? at found ⊢
  rw [skip_append mem', name?_append (mem_skip mem')]
  split at found
  · rename_i none
    cases found
    rw [none]
    rfl
  · rename_i word r read
    rw [read]
    dsimp only [Option.map_some]
    split at found
    · rename_i one
      obtain ⟨⟨word', r'⟩, read', found₁⟩ := Option.bind_eq_some_iff.1 found
      dsimp only at found₁
      split at found₁
      · rename_i two
        cases found₁
        have mem₁ : '}' ∈ r := (takes_skip r).mem ((takes_name? read').mem mem)
        rw [if_pos one, skip_append mem₁, name?_append (mem_skip mem₁), read']
        exact if_pos two
      · cases found₁
    · rename_i other
      cases found
      rw [if_neg other]

theorem context?_append (found : context? t = some rest) (mem : '}' ∈ rest) (u : Text) :
    context? (t ++ u) = some (rest ++ u) := by
  obtain ⟨⟨present, r⟩, read, eq⟩ := Option.map_eq_some_iff.1 found
  cases eq
  rw [context?, words?_append read mem]
  rfl

theorem optional?_append {optional : Bool} (found : optional? t = some (optional, rest)) (mem : '}' ∈ rest)
    (u : Text) : optional? (t ++ u) = some (optional, rest ++ u) := by
  obtain ⟨t₁, read, found₁⟩ := Option.bind_eq_some_iff.1 found
  obtain ⟨⟨present, t₂⟩, read', found₂⟩ := Option.bind_eq_some_iff.1 found₁
  dsimp only at found₂
  split at found₂
  · rename_i is_present
    obtain ⟨t₃, read'', eq⟩ := Option.map_eq_some_iff.1 found₂
    cases eq
    have mem₂ : '}' ∈ t₂ := (takes_context? read'').mem mem
    have mem₁ : '}' ∈ t₁ := (takes_words? read').mem mem₂
    rw [optional?, context?_append read mem₁]
    simp only [Option.bind_eq_bind, Option.bind_some, words?_append read' mem₂, is_present, if_true,
      context?_append read'' mem, Option.map_some]
  · rename_i is_absent
    cases found₂
    have mem₁ : '}' ∈ t₁ := (takes_words? read').mem mem
    rw [optional?, context?_append read mem₁]
    simp only [Option.bind_eq_bind, Option.bind_some, words?_append read' mem, if_neg is_absent]

theorem include?_append {p : Piece} {removes : Bool} (found : include? t = some (p, removes, rest)) (u : Text) :
    include? (t ++ u) = some (p, removes, rest ++ u) := by
  obtain ⟨⟨word, t₁⟩, read, found₁⟩ := Option.bind_eq_some_iff.1 found
  dsimp only at found₁
  split at found₁
  · rename_i include_
    obtain ⟨⟨e, t₂⟩, read', found₂⟩ := Option.bind_eq_some_iff.1 found₁
    obtain ⟨⟨optional, t₃⟩, read'', found₃⟩ := Option.bind_eq_some_iff.1 found₂
    obtain ⟨⟨r, t₄⟩, closed, eq⟩ := Option.bind_eq_some_iff.1 found₃
    cases eq
    have mem₃ : '}' ∈ t₃ := (takes_statementEnd? closed).mem (by simp)
    have mem₂ : '}' ∈ t₂ := (takes_optional? read'').mem mem₃
    have mem₁ : '}' ∈ t₁ := (Expression.takes_read? read').mem mem₂
    have mem : '}' ∈ t := (takes_skip t).mem ((takes_name? read).mem mem₁)
    rw [include?, skip_append mem, name?_append (mem_skip mem), read]
    simp only [Option.bind_eq_bind, Option.map_some, Option.bind_some, if_pos include_,
      Expression.read?_append read' mem₂, optional?_append read'' mem₃, statementEnd?_append closed]
    rfl
  · cases found₁

theorem comment?_append {p : Piece} {removes : Bool} (found : comment? t = some (p, removes, rest)) (u : Text) :
    comment? (t ++ u) = some (p, removes, rest ++ u) := by
  obtain ⟨⟨body, after⟩, cut, eq⟩ := Option.map_eq_some_iff.1 found
  cases eq
  rw [comment?, cut?_append cut (by simp)]
  rfl

/-- **What an opening delimiter begins is the same with any text behind.** -/
theorem special?_append {p : Piece} {removes : Bool} (found : special? t = some (p, removes, rest)) (u : Text) :
    special? (t ++ u) = some (p, removes, rest ++ u) := by
  have nonempty {m : Char} {t : Text} {l : Text} (takes : Takes (afterOpener ('{' :: m :: t)) l) (ne : l ≠ []) :
      t ≠ [] := by
    rintro rfl
    obtain ⟨lead, eq, -⟩ := takes
    exact ne (List.append_eq_nil_iff.1 eq.symm).2
  unfold special? at found
  split at found
  · rename_i t
    show print? (afterOpener ('{' :: '{' :: (t ++ u))) = _
    rw [afterOpener_append _ (nonempty (takes_print? found) (by simp))]
    exact print?_append found u
  · rename_i t
    show (if (bareStatement? _ (afterOpener ('{' :: '%' :: (t ++ u)))).isSome then
      raw? (afterOpener ('{' :: '%' :: (t ++ u))) else include? (afterOpener ('{' :: '%' :: (t ++ u)))) = _
    dsimp only at found
    split at found
    · rename_i raw
      obtain ⟨⟨removes', r⟩, raw⟩ := Option.isSome_iff_exists.1 raw
      rw [afterOpener_append _ (nonempty (takes_bareStatement? (by decide) raw) (by simp)),
        bareStatement?_append (by decide) raw]
      exact (if_pos rfl).trans (raw?_append found u)
    · rename_i not_raw
      have mem := (takes_include? found).mem (c := '}') (by simp)
      rw [afterOpener_append _ (nonempty (takes_include? found) (by simp)),
        if_neg fun raw => not_raw (isSome_bareStatement?_of_mem (by decide) (by decide) raw mem)]
      exact include?_append found u
  · rename_i t
    show comment? (afterOpener ('{' :: '#' :: (t ++ u))) = _
    have takes : t ≠ [] := by
      rintro rfl
      cases found
    rw [afterOpener_append _ takes]
    exact comment?_append found u
  · cases found

end Piece

end TagTemplate
