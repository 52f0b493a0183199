/-
# Proofs.Rendering.Reading -- what the readers of the rendering language take

A reader takes a lead off a text and gives back the rest.  Between the delimiters of a
statement, a brace or another mark of a delimiter can only stand in a quoted text, so there
are quotation marks before and behind every one that a reader takes (`Takes`).  Each reader
has one lemma that says so, from characters up to a whole statement.
-/
import Mathlib.Data.List.TakeWhile
import TagTemplate.Rendering

namespace TagTemplate

set_option autoImplicit false

open Text

/-! ## What readers take -/

/-- Whether a character is part of a delimiter. -/
def isMark (c : Char) : Bool := c == '{' || c == '}' || c == '%' || c == '#'

theorem isMark_iff {c : Char} : isMark c = true ↔ c = '{' ∨ c = '}' ∨ c = '%' ∨ c = '#' := by
  simp [isMark, or_assoc]

/-- Before and behind every mark stands a quotation mark. -/
def Guarded (t : Text) : Prop := ∀ a c b, t = a ++ c :: b → isMark c = true →
  (∃ q ∈ a, Expression.isQuote q = true) ∧ ∃ q ∈ b, Expression.isQuote q = true

/-- A lead is taken off a text, with quotation marks around every mark in it. -/
def Takes (t rest : Text) : Prop := ∃ lead, t = lead ++ rest ∧ Guarded lead

theorem guarded_of_plain {t : Text} (plain : ∀ c ∈ t, isMark c = false) : Guarded t := by
  rintro a c b rfl mark
  rw [plain c (List.mem_append_right _ (List.mem_cons_self ..))] at mark
  cases mark

theorem Guarded.append {s t : Text} (first : Guarded s) (second : Guarded t) : Guarded (s ++ t) := by
  intro a c b split mark
  rcases List.append_eq_append_iff.1 split with ⟨mid, rfl, rest⟩ | ⟨mid, rfl, rest⟩
  · obtain ⟨⟨q, mem, quote⟩, behind⟩ := second mid c b rest mark
    exact ⟨⟨q, List.mem_append_right _ mem, quote⟩, behind⟩
  · cases mid with
    | nil =>
      obtain ⟨⟨q, mem, -⟩, -⟩ := second [] c b rest.symm mark
      cases mem
    | cons d mid =>
      obtain ⟨rfl, rfl⟩ := List.cons.inj rest
      obtain ⟨before, q, mem, quote⟩ := first a c mid rfl mark
      exact ⟨before, q, List.mem_append_left _ mem, quote⟩

theorem Takes.refl (t : Text) : Takes t t := ⟨[], rfl, guarded_of_plain nofun⟩

theorem Takes.trans {s t u : Text} (first : Takes s t) (second : Takes t u) : Takes s u := by
  obtain ⟨lead, rfl, guarded⟩ := first
  obtain ⟨lead', rfl, guarded'⟩ := second
  exact ⟨lead ++ lead', (List.append_assoc ..).symm, guarded.append guarded'⟩

theorem takes_of_plain {lead t rest : Text} (split : t = lead ++ rest) (plain : ∀ c ∈ lead, isMark c = false) :
    Takes t rest :=
  ⟨lead, split, guarded_of_plain plain⟩

theorem takes_cons {c : Char} {t rest : Text} (plain : isMark c = false) (takes : Takes t rest) : Takes (c :: t) rest :=
  (takes_of_plain (rfl : c :: t = [c] ++ t) (List.forall_mem_singleton.2 plain)).trans takes

/-- What a reader of some characters takes has no mark in it, if none of them is one. -/
theorem takes_dropWhile {p : Char → Bool} (stops : ∀ c, isMark c = true → p c = false) (t : Text) :
    Takes t (t.dropWhile p) := by
  refine takes_of_plain (List.takeWhile_append_dropWhile (p := p) (l := t)).symm fun c mem => ?_
  rw [Bool.eq_false_iff]
  intro mark
  have taken := List.mem_takeWhile_imp mem
  rw [stops c mark] at taken
  cases taken

/-! ## Numbers -/

namespace Numeral

theorem next?_mark (p : Part) {c : Char} (mark : isMark c = true) (t : Text) : p.next? c t = none := by
  rcases isMark_iff.1 mark with rfl | rfl | rfl | rfl <;> cases p <;> simp [Part.next?]

theorem takes_scan (p : Part) (t : Text) : Takes t (scan p t).2.2 := by
  induction t generalizing p with
  | nil => exact .refl []
  | cons c t ih =>
    rw [scan]
    split
    · rename_i q next
      refine takes_cons (Bool.eq_false_iff.2 fun mark => ?_) (ih q)
      rw [next?_mark p mark] at next
      cases next
    · exact .refl _

theorem isBaseChar_mark (base : Nat) {c : Char} (mark : isMark c = true) : isBaseChar base c = false := by
  have noDigit : (hexValue? c).isSome = false := by rcases isMark_iff.1 mark with rfl | rfl | rfl | rfl <;> decide
  rw [isBaseChar, noDigit, Bool.and_false]
  rcases isMark_iff.1 mark with rfl | rfl | rfl | rfl <;> decide

theorem takes_base? {t rest : Text} {base : Nat} (found : base? t = some (base, rest)) : Takes t rest := by
  unfold base? at found
  split at found
  · rename_i c t
    have plain : isMark c = false := by
      rw [Bool.eq_false_iff]
      intro mark
      rcases isMark_iff.1 mark with rfl | rfl | rfl | rfl <;> simp at found
    refine takes_cons (by decide) (takes_cons plain ?_)
    split at found
    · cases found
      exact .refl _
    · split at found
      · cases found
        exact .refl _
      · split at found
        · cases found
          exact .refl _
        · cases found
  · cases found

theorem takes_read? {t rest : Text} {n : Numeral} (found : read? t = some (n, rest)) : Takes t rest := by
  unfold read? at found
  split at found
  · rename_i base t' based
    obtain ⟨_, -, eq⟩ := Option.map_eq_some_iff.1 found
    cases eq
    exact (takes_base? based).trans (takes_dropWhile (fun _ => isBaseChar_mark base) t')
  · split at found
    · obtain ⟨_, -, eq⟩ := Option.map_eq_some_iff.1 found
      cases eq
      exact takes_scan .whole t
    · cases found

end Numeral

/-! ## Quoted texts -/

/-- A number takes a lead, whatever is in it. -/
theorem exists_of_hexNumber? {count : Nat} : ∀ {value n : Nat} {t rest : Text},
    hexNumber? value count t = some (n, rest) → ∃ lead, t = lead ++ rest := by
  induction count with
  | zero =>
    intro value n t rest found
    cases found
    exact ⟨[], rfl⟩
  | succ count ih =>
    intro value n t rest found
    cases t with
    | nil => cases found
    | cons c t =>
      obtain ⟨d, -, found⟩ := Option.bind_eq_some_iff.1 found
      obtain ⟨lead, rfl⟩ := ih found
      exact ⟨c :: lead, rfl⟩

namespace Expression

theorem exists_of_number? {count n : Nat} {t rest : Text} (found : number? count t = some (n, rest)) :
    ∃ lead, t = lead ++ rest := by
  unfold number? at found
  split at found
  · split at found
    · cases found
    · obtain ⟨lead, rfl⟩ := exists_of_hexNumber? found
      exact ⟨'+' :: lead, rfl⟩
  · exact exists_of_hexNumber? found

theorem exists_of_unicodeEscape? {c : Char} {t rest : Text}
    (found : Quoted.unicodeEscape? (number? 4) t = some (c, rest)) : ∃ lead, t = lead ++ rest := by
  obtain ⟨⟨high, t₁⟩, read, found₁⟩ := Option.bind_eq_some_iff.1 found
  obtain ⟨lead, rfl⟩ := exists_of_number? read
  dsimp only at found₁
  split at found₁
  · obtain ⟨t₂, dropped, found₂⟩ := Option.bind_eq_some_iff.1 found₁
    obtain ⟨⟨low, t₃⟩, read', found₃⟩ := Option.bind_eq_some_iff.1 found₂
    obtain ⟨lead', rfl⟩ := exists_of_number? read'
    rw [dropLead?_eq_some_iff.1 dropped]
    dsimp only at found₃
    split at found₃
    · obtain ⟨-, rfl⟩ := Prod.mk.inj (Option.some.inj found₃)
      exact ⟨lead ++ (['\\', 'u'] ++ lead'), by simp⟩
    · cases found₃
  · split at found₁
    · obtain ⟨-, rfl⟩ := Prod.mk.inj (Option.some.inj found₁)
      exact ⟨lead, rfl⟩
    · cases found₁

theorem exists_of_octalEscape? {c : Char} {t rest : Text} (found : octalEscape? t = some (c, rest)) :
    ∃ lead, t = lead ++ rest := by
  obtain ⟨_, -, eq⟩ := Option.map_eq_some_iff.1 found
  cases eq
  exact ⟨_, (List.take_append_drop _ t).symm⟩

theorem exists_of_escape? {t s rest : Text} (found : escape? t = some (s, rest)) : ∃ lead, t = lead ++ rest := by
  unfold escape? at found
  split at found
  · cases found
  · rename_i c t
    split at found
    · obtain ⟨⟨d, r⟩, read, eq⟩ := Option.map_eq_some_iff.1 found
      cases eq
      obtain ⟨lead, rfl⟩ := exists_of_unicodeEscape? read
      exact ⟨c :: lead, rfl⟩
    · split at found
      · obtain ⟨⟨n, r⟩, read, eq⟩ := Option.map_eq_some_iff.1 found
        cases eq
        obtain ⟨lead, rfl⟩ := exists_of_number? read
        exact ⟨c :: lead, rfl⟩
      · split at found
        · rename_i d r read
          cases found
          exact exists_of_octalEscape? read
        · split at found
          · cases found
            exact ⟨[c], rfl⟩
          · cases found
            exact ⟨[c], rfl⟩

/-- The text of a literal ends with its closing quote. -/
theorem exists_of_bodyUpTo? {quote : Char} {plain : Char → Bool} {count : Nat} : ∀ {t s rest : Text},
    Quoted.bodyUpTo? escape? quote plain count t = some (s, rest) → ∃ lead, t = lead ++ quote :: rest := by
  induction count with
  | zero =>
    intro t s rest found
    cases found
  | succ count ih =>
    intro t s rest found
    cases t with
    | nil => cases found
    | cons c t =>
      unfold Quoted.bodyUpTo? at found
      split at found
      · rename_i same
        cases found
        exact ⟨[], same ▸ rfl⟩
      · split at found
        · obtain ⟨⟨e, t₁⟩, read, found⟩ := Option.bind_eq_some_iff.1 found
          obtain ⟨⟨s', t₂⟩, read', eq⟩ := Option.bind_eq_some_iff.1 found
          cases eq
          obtain ⟨lead, rfl⟩ := exists_of_escape? read
          obtain ⟨lead', rfl⟩ := ih read'
          exact ⟨c :: (lead ++ lead'), by simp⟩
        · split at found
          · obtain ⟨⟨s', t₁⟩, read, eq⟩ := Option.map_eq_some_iff.1 found
            cases eq
            obtain ⟨lead, rfl⟩ := ih read
            exact ⟨c :: lead, rfl⟩
          · cases found

/-- What stands in quotes has quotation marks around it. -/
theorem takes_quoted? {t s rest : Text} (found : quoted? t = some (s, rest)) : Takes t rest := by
  cases t with
  | nil => cases found
  | cons c t =>
    rw [quoted?] at found
    split at found
    · rename_i quote
      obtain ⟨lead, rfl⟩ := exists_of_bodyUpTo? found
      refine ⟨c :: lead ++ [c], by simp, fun a k b split mark => ?_⟩
      -- A mark is no quotation mark, so it is neither the first nor the last character.
      have other : c ≠ k := by
        rintro rfl
        rcases isMark_iff.1 mark with rfl | rfl | rfl | rfl <;> cases quote
      cases a with
      | nil => exact absurd (List.cons.inj split).1 other
      | cons d a =>
        obtain ⟨rfl, -⟩ := List.cons.inj split
        refine ⟨⟨c, List.mem_cons_self .., quote⟩, ?_⟩
        rcases List.eq_nil_or_concat b with rfl | ⟨b', d, rfl⟩
        · exact absurd (List.singleton_inj.1 (List.append_inj' split rfl).2) other
        · rw [List.concat_eq_append, ← List.cons_append, ← List.append_assoc] at split
          obtain rfl : c = d := by simpa using (List.append_inj' split rfl).2
          exact ⟨c, by simp, quote⟩
    · cases found

theorem exists_skip (t : Text) : ∃ gap, t = gap ++ skip t ∧ ∀ c ∈ gap, isGap c = true :=
  ⟨t.takeWhile isGap, List.takeWhile_append_dropWhile.symm, fun _ mem => List.mem_takeWhile_imp mem⟩

theorem isGap_mark {c : Char} (mark : isMark c = true) : isGap c = false := by
  rcases isMark_iff.1 mark with rfl | rfl | rfl | rfl <;> decide

theorem takes_skip (t : Text) : Takes t (skip t) := takes_dropWhile (fun _ => isGap_mark) t

theorem takes_quotedTexts? {count : Nat} : ∀ {t s rest : Text},
    quotedTexts? count t = some (s, rest) → Takes t rest := by
  induction count with
  | zero =>
    intro t s rest found
    cases found
  | succ count ih =>
    intro t s rest found
    obtain ⟨⟨s', t₁⟩, read, found⟩ := Option.bind_eq_some_iff.1 found
    dsimp only at found
    split at found
    · obtain ⟨⟨s₂, t₂⟩, read', eq⟩ := Option.map_eq_some_iff.1 found
      cases eq
      exact (takes_quoted? read).trans ((takes_skip t₁).trans (ih read'))
    · cases found
      exact takes_quoted? read

/-! ## Expressions -/

theorem isNameChar_mark {c : Char} (mark : isMark c = true) : isNameChar c = false := by
  rcases isMark_iff.1 mark with rfl | rfl | rfl | rfl <;> decide

theorem takes_name? {t name rest : Text} (found : name? t = some (name, rest)) : Takes t rest := by
  unfold name? at found
  split at found
  · cases found
    exact takes_dropWhile (fun _ => isNameChar_mark) t
  · cases found

theorem takes_signed? {negative : Bool} {t rest : Text} {e : Expression} (found : signed? negative t = some (e, rest)) :
    Takes t rest := by
  obtain ⟨⟨n, r⟩, read, found⟩ := Option.bind_eq_some_iff.1 found
  obtain ⟨_, -, eq⟩ := Option.map_eq_some_iff.1 found
  cases eq
  exact Numeral.takes_read? read

theorem takes_atom? {t rest : Text} {e : Expression} (found : atom? t = some (e, rest)) : Takes t rest := by
  unfold atom? at found
  split at found
  · exact takes_signed? found
  · split at found
    · rename_i minus
      cases t with
      | nil => cases minus
      | cons c t =>
        have same : c = '-' := by simpa [startsWith] using minus
        refine takes_cons (same ▸ by decide) ((takes_skip t).trans (takes_signed? found))
    · split at found
      · obtain ⟨⟨s, r⟩, read, eq⟩ := Option.map_eq_some_iff.1 found
        cases eq
        exact takes_quotedTexts? read
      · obtain ⟨⟨name, r⟩, read, found⟩ := Option.bind_eq_some_iff.1 found
        obtain ⟨_, -, eq⟩ := Option.map_eq_some_iff.1 found
        cases eq
        exact takes_name? read

theorem takes_step? {e e' : Expression} {t rest : Text} (found : step? e t = some (e', rest)) : Takes t rest := by
  unfold step? at found
  split at found
  · rename_i name r read
    cases found
    exact takes_name? read
  · rename_i index r read
    cases found
    exact Numeral.takes_read? read
  · cases found

theorem takes_steps? {count : Nat} : ∀ {e e' : Expression} {t rest : Text},
    steps? count e t = some (e', rest) → Takes t rest := by
  induction count with
  | zero =>
    intro e e' t rest found
    unfold steps? at found
    split at found
    · cases found
    · rename_i zero
      cases zero
    · cases found
      exact takes_skip t
  | succ count ih =>
    intro e e' t rest found
    unfold steps? at found
    split at found
    · rename_i zero
      cases zero
    · rename_i t' count' eq same
      cases same
      obtain ⟨⟨e₁, t₁⟩, read, found⟩ := Option.bind_eq_some_iff.1 found
      have dot : Takes (skip t) t' := eq ▸ takes_cons (by decide) (.refl t')
      exact (takes_skip t).trans (dot.trans ((takes_skip t').trans ((takes_step? read).trans (ih found))))
    · cases found
      exact takes_skip t

theorem takes_read? {t rest : Text} {e : Expression} (found : read? t = some (e, rest)) : Takes t rest := by
  obtain ⟨⟨e₁, t₁⟩, read, found⟩ := Option.bind_eq_some_iff.1 found
  exact (takes_skip t).trans ((takes_atom? read).trans (takes_steps? found))

end Expression

/-! ## Statements -/

namespace Piece

open Expression (skip name? exists_skip takes_skip takes_name?)

/-- What may stand on the inner side of a delimiter. -/
def signs : List Text := [[], ['-'], ['+']]

theorem mem_signs_iff {sign : Text} : sign ∈ signs ↔ sign = [] ∨ sign = ['-'] ∨ sign = ['+'] := by
  simp only [signs, List.mem_cons, List.not_mem_nil, or_false]

theorem eq_of_mem_sign {sign : Text} (mem : sign ∈ signs) {c : Char} (inside : c ∈ sign) : c = '-' ∨ c = '+' := by
  rcases mem_signs_iff.1 mem with rfl | rfl | rfl
  · cases inside
  · exact .inl (List.mem_singleton.1 inside)
  · exact .inr (List.mem_singleton.1 inside)

theorem plain_of_mem_signs {sign : Text} (mem : sign ∈ signs) : ∀ c ∈ sign, isMark c = false := by
  intro c inside
  rcases eq_of_mem_sign mem inside with rfl | rfl <;> decide

/-- A closing delimiter has a sign before it, or nothing. -/
theorem exists_of_close? {delimiter t rest : Text} {removes : Bool}
    (found : close? delimiter t = some (removes, rest)) :
    ∃ sign ∈ signs, t = sign ++ (delimiter ++ rest) ∧ removes = decide (sign = ['-']) := by
  have split {r : Bool} {t : Text} (found : (dropLead? delimiter t).map (r, ·) = some (removes, rest)) :
      t = delimiter ++ rest ∧ removes = r := by
    obtain ⟨_, dropped, eq⟩ := Option.map_eq_some_iff.1 found
    cases eq
    exact ⟨dropLead?_eq_some_iff.1 dropped, rfl⟩
  unfold close? at found
  split at found
  · obtain ⟨rfl, rfl⟩ := split found
    exact ⟨['-'], mem_signs_iff.2 (.inr (.inl rfl)), rfl, rfl⟩
  · obtain ⟨rfl, rfl⟩ := split found
    exact ⟨['+'], mem_signs_iff.2 (.inr (.inr rfl)), rfl, rfl⟩
  · obtain ⟨rfl, rfl⟩ := split found
    exact ⟨[], mem_signs_iff.2 (.inl rfl), rfl, rfl⟩

theorem takes_close? {delimiter t rest : Text} {removes : Bool} (found : close? delimiter t = some (removes, rest)) :
    Takes t (delimiter ++ rest) := by
  obtain ⟨sign, mem, split, -⟩ := exists_of_close? found
  exact takes_of_plain split (plain_of_mem_signs mem)

theorem takes_statementEnd? {t rest : Text} {removes : Bool} (found : statementEnd? t = some (removes, rest)) :
    Takes t ('%' :: '}' :: rest) :=
  (takes_skip t).trans (takes_close? found)

/-- An opening delimiter has a sign behind it, or nothing. -/
theorem exists_afterOpener (m : Char) (t : Text) :
    ∃ sign ∈ signs, t = sign ++ afterOpener ('{' :: m :: t) := by
  unfold afterOpener
  split
  · rename_i rest eq
    exact ⟨['-'], mem_signs_iff.2 (.inr (.inl rfl)), eq⟩
  · rename_i rest eq
    exact ⟨['+'], mem_signs_iff.2 (.inr (.inr rfl)), eq⟩
  · exact ⟨[], mem_signs_iff.2 (.inl rfl), rfl⟩

theorem takes_afterOpener (m : Char) (t : Text) : Takes t (afterOpener ('{' :: m :: t)) := by
  obtain ⟨sign, mem, split⟩ := exists_afterOpener m t
  exact takes_of_plain split (plain_of_mem_signs mem)

theorem takes_print? {t rest : Text} {p : Piece} {removes : Bool} (found : print? t = some (p, removes, rest)) :
    Takes t ('}' :: '}' :: rest) := by
  obtain ⟨⟨e, t₁⟩, read, found₁⟩ := Option.bind_eq_some_iff.1 found
  obtain ⟨⟨r, t₂⟩, closed, eq⟩ := Option.bind_eq_some_iff.1 found₁
  cases eq
  exact (Expression.takes_read? read).trans (takes_close? closed)

theorem takes_words? {first : List Text} {second t rest : Text} {present : Bool}
    (found : words? first second t = some (present, rest)) : Takes t rest := by
  unfold words? at found
  split at found
  · cases found
    exact .refl _
  · rename_i word r read
    split at found
    · obtain ⟨⟨word', r'⟩, read', found₁⟩ := Option.bind_eq_some_iff.1 found
      dsimp only at found₁
      split at found₁
      · cases found₁
        exact (takes_skip t).trans ((takes_name? read).trans ((takes_skip r).trans (takes_name? read')))
      · cases found₁
    · cases found
      exact .refl _

theorem takes_context? {t rest : Text} (found : context? t = some rest) : Takes t rest := by
  obtain ⟨⟨present, r⟩, read, eq⟩ := Option.map_eq_some_iff.1 found
  cases eq
  exact takes_words? read

theorem takes_optional? {t rest : Text} {optional : Bool} (found : optional? t = some (optional, rest)) :
    Takes t rest := by
  obtain ⟨t₁, read, found₁⟩ := Option.bind_eq_some_iff.1 found
  obtain ⟨⟨present, t₂⟩, read', found₂⟩ := Option.bind_eq_some_iff.1 found₁
  dsimp only at found₂
  have before := (takes_context? read).trans (takes_words? read')
  split at found₂
  · obtain ⟨t₃, read'', eq⟩ := Option.map_eq_some_iff.1 found₂
    cases eq
    exact before.trans (takes_context? read'')
  · cases found₂
    exact before

theorem takes_include? {t rest : Text} {p : Piece} {removes : Bool} (found : include? t = some (p, removes, rest)) :
    Takes t ('%' :: '}' :: rest) := by
  obtain ⟨⟨word, t₁⟩, read, found₁⟩ := Option.bind_eq_some_iff.1 found
  dsimp only at found₁
  split at found₁
  · obtain ⟨⟨e, t₂⟩, read', found₂⟩ := Option.bind_eq_some_iff.1 found₁
    obtain ⟨⟨optional, t₃⟩, read'', found₃⟩ := Option.bind_eq_some_iff.1 found₂
    obtain ⟨⟨r, t₄⟩, closed, eq⟩ := Option.bind_eq_some_iff.1 found₃
    cases eq
    exact (takes_skip t).trans ((takes_name? read).trans ((Expression.takes_read? read').trans
      ((takes_optional? read'').trans (takes_statementEnd? closed))))
  · cases found₁

/-- What stands before the end of a statement that is only a word. -/
theorem exists_of_bareStatement? {word t rest : Text} {removes : Bool}
    (found : bareStatement? word t = some (removes, rest)) :
    ∃ lead, t = lead ++ '%' :: '}' :: rest ∧
      ∀ c ∈ lead, Expression.isGap c = true ∨ c ∈ word ∨ c = '-' ∨ c = '+' := by
  obtain ⟨t₁, dropped, closed⟩ := Option.bind_eq_some_iff.1 found
  obtain ⟨sign, signed, split, -⟩ := exists_of_close? closed
  obtain ⟨gap, before, gaps⟩ := exists_skip t
  obtain ⟨gap', after, gaps'⟩ := exists_skip t₁
  rw [dropLead?_eq_some_iff.1 dropped] at before
  rw [split] at after
  refine ⟨gap ++ (word ++ (gap' ++ sign)), ?_, fun c mem => ?_⟩
  · rw [before, after]
    simp
  · simp only [List.mem_append] at mem
    rcases mem with mem | mem | mem | mem
    · exact .inl (gaps c mem)
    · exact .inr (.inl mem)
    · exact .inl (gaps' c mem)
    · exact .inr (.inr (eq_of_mem_sign signed mem))

theorem takes_bareStatement? {word t rest : Text} {removes : Bool} (letters : word.any isMark = false)
    (found : bareStatement? word t = some (removes, rest)) : Takes t ('%' :: '}' :: rest) := by
  obtain ⟨lead, split, parts⟩ := exists_of_bareStatement? found
  refine takes_of_plain split fun c mem => ?_
  rcases parts c mem with gap | inside | rfl | rfl
  · rw [Bool.eq_false_iff]
    intro mark
    rw [Expression.isGap_mark mark] at gap
    cases gap
  · exact Bool.eq_false_iff.2 (List.any_eq_false.1 letters c inside)
  · rfl
  · rfl

end Piece

end TagTemplate
