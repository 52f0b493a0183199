/-
# Proofs.Rendering.Locality -- an expression with any text behind its statement

No reader of an expression takes a closing brace, except in quotes, or looks past one.
So where a closing brace is still to come, it reads the same with any text behind, and
leaves that text behind as well (`Expression.read?_append`).

A name, a number and the white space between them are read the same, or not read, if
the text has a closing brace anywhere.  Of the other readers this is only said where
they read something, and what they leave has the closing brace.  Where the length of a
text bounds the steps, a longer text allows for more of them.
-/
import TagTemplate.Proofs.Rendering.Statements

namespace TagTemplate

set_option autoImplicit false

open Text

variable {t rest : Text}

/-! ## Characters -/

theorem Takes.mem {c : Char} (takes : Takes t rest) (mem : c ∈ rest) : c ∈ t := by
  obtain ⟨lead, rfl, -⟩ := takes
  exact List.mem_append_right lead mem

theorem startsWith_append (p : Char → Bool) (nonempty : t ≠ []) (u : Text) :
    startsWith p (t ++ u) = startsWith p t := by
  cases t with
  | nil => exact absurd rfl nonempty
  | cons c t => rfl

section Stop

variable {p : Char → Bool} {c : Char} (stops : p c = false) (mem : c ∈ t)
include stops mem

theorem mem_dropWhile : c ∈ t.dropWhile p := by
  rw [← List.takeWhile_append_dropWhile (p := p) (l := t)] at mem
  rcases List.mem_append.1 mem with mem | mem
  · rw [List.mem_takeWhile_imp mem] at stops
    cases stops
  · exact mem

theorem dropWhile_append_of_mem (u : Text) : (t ++ u).dropWhile p = t.dropWhile p ++ u := by
  rw [List.dropWhile_append, if_neg]
  rw [List.isEmpty_iff]
  exact List.ne_nil_of_mem (mem_dropWhile stops mem)

theorem takeWhile_append_of_mem (u : Text) : (t ++ u).takeWhile p = t.takeWhile p := by
  have behind := dropWhile_append_of_mem stops mem u
  have whole := List.takeWhile_append_dropWhile (p := p) (l := t ++ u)
  rw [behind, ← List.append_assoc] at whole
  have whole' := List.append_cancel_right whole
  exact List.append_cancel_right (whole'.trans List.takeWhile_append_dropWhile.symm)

end Stop

theorem dropLead?_append {lead : Text} (long : lead.length ≤ t.length) (u : Text) :
    dropLead? lead (t ++ u) = (dropLead? lead t).map (· ++ u) := by
  cases found : dropLead? lead t with
  | some rest =>
    rw [dropLead?_eq_some_iff.1 found, List.append_assoc]
    exact dropLead?_eq_some_iff.2 rfl
  | none =>
    rw [Option.map_none, Option.eq_none_iff_forall_ne_some]
    intro rest found'
    have whole := (dropLead?_eq_some_iff.1 found').symm
    obtain ⟨rest', rfl⟩ := List.prefix_of_prefix_length_le ⟨rest, whole⟩ ⟨u, rfl⟩ long
    rw [dropLead?_eq_some_iff.2 rfl] at found
    cases found

/-- What is behind the first occurrence of a needle does not change where that is. -/
theorem cut?_append {needle a b : Text} (found : cut? needle t = some (a, b)) (nonempty : needle ≠ []) (u : Text) :
    cut? needle (t ++ u) = some (a, b ++ u) := by
  induction t generalizing a with
  | nil =>
    cases needle with
    | nil => exact absurd rfl nonempty
    | cons c needle => cases found
  | cons c t ih =>
    have long : needle.length ≤ (c :: t).length := by
      have := length_of_cut? found
      omega
    rw [List.cons_append, cut?, ← List.cons_append, dropLead?_append long]
    rw [cut?] at found
    cases here : dropLead? needle (c :: t) with
    | some r =>
      rw [here] at found
      cases found
      rfl
    | none =>
      rw [here] at found
      obtain ⟨⟨a', b'⟩, found', eq⟩ := Option.map_eq_some_iff.1 found
      cases eq
      dsimp only [Option.map_none]
      rw [ih found']
      rfl

/-! ## Numbers -/

namespace Numeral

theorem startsInteger_append (mem : '}' ∈ t) (u : Text) : startsInteger (t ++ u) = startsInteger t := by
  match t, mem with
  | [c], mem =>
    obtain rfl := List.mem_singleton.1 mem
    rfl
  | c :: d :: t, _ =>
    by_cases plus : c = '+'
    · subst plus
      rfl
    · by_cases minus : c = '-'
      · subst minus
        rfl
      · have unsigned (t : Text) : startsInteger (c :: t) = c.isDigit := by
          unfold startsInteger
          split
          · rename_i eq
            exact absurd (List.cons.inj eq).1 plus
          · rename_i eq
            exact absurd (List.cons.inj eq).1 minus
          · rfl
        exact (unsigned _).trans (unsigned _).symm

theorem startsField_append (mem : '}' ∈ t) (u : Text) : startsField (t ++ u) = startsField t := by
  match t, mem with
  | c :: t, mem =>
    rw [List.cons_append, startsField, startsField]
    by_cases here : c = '}'
    · subst here
      rfl
    · rw [startsInteger_append (List.mem_of_ne_of_mem (Ne.symm here) mem)]

theorem next?_append (p : Part) (c : Char) (mem : '}' ∈ t) (u : Text) : p.next? c (t ++ u) = p.next? c t := by
  cases p <;> simp only [Part.next?, startsField_append mem]

theorem next?_closing (p : Part) (t : Text) : p.next? '}' t = none := by
  cases p <;> simp [Part.next?]

theorem scan_append (p : Part) (mem : '}' ∈ t) (u : Text) :
    scan p (t ++ u) = ((scan p t).1, (scan p t).2.1, (scan p t).2.2 ++ u) := by
  induction t generalizing p with
  | nil => cases mem
  | cons c t ih =>
    by_cases here : c = '}'
    · subst here
      rw [List.cons_append, scan, scan, next?_closing, next?_closing]
      rfl
    · have mem' : '}' ∈ t := List.mem_of_ne_of_mem (Ne.symm here) mem
      rw [List.cons_append, scan, scan, next?_append p c mem']
      cases p.next? c t with
      | none => rfl
      | some q => simp only [ih q mem']

theorem base?_append (mem : '}' ∈ t) (u : Text) : base? (t ++ u) = (base? t).map fun p => (p.1, p.2 ++ u) := by
  match t, mem with
  | [c], mem =>
    obtain rfl := List.mem_singleton.1 mem
    rfl
  | c :: d :: t, _ =>
    by_cases zero : c = '0'
    · subst zero
      simp only [List.cons_append, base?]
      split_ifs <;> rfl
    · have decimal (t : Text) : base? (c :: d :: t) = none := by
        unfold base?
        split
        · rename_i eq
          exact absurd (List.cons.inj eq).1 zero
        · rfl
      rw [decimal t]
      exact decimal (t ++ u)

theorem mem_base? {base : Nat} (found : base? t = some (base, rest)) (mem : '}' ∈ t) : '}' ∈ rest := by
  unfold base? at found
  split at found
  · rename_i c t
    have behind : c ≠ '}' → '}' ∈ t := fun ne =>
      List.mem_of_ne_of_mem (Ne.symm ne) (List.mem_of_ne_of_mem (by decide) mem)
    split_ifs at found with hex octal binary
    · cases found
      exact behind (by rcases hex with rfl | rfl <;> decide)
    · cases found
      exact behind (by rcases octal with rfl | rfl <;> decide)
    · cases found
      exact behind (by rcases binary with rfl | rfl <;> decide)
  · cases found

theorem isBaseChar_closing (base : Nat) : isBaseChar base '}' = false := by
  have noDigit : (hexValue? '}').isSome = false := by decide
  rw [isBaseChar, noDigit, Bool.and_false]
  decide

theorem read?_append (mem : '}' ∈ t) (u : Text) : read? (t ++ u) = (read? t).map fun p => (p.1, p.2 ++ u) := by
  unfold read?
  rw [base?_append mem]
  cases based : base? t with
  | some p =>
    obtain ⟨base, t'⟩ := p
    have mem' := mem_base? based mem
    simp only [Option.map_some, takeWhile_append_of_mem (isBaseChar_closing base) mem',
      dropWhile_append_of_mem (isBaseChar_closing base) mem', Option.map_map]
    rfl
  | none =>
    simp only [Option.map_none, startsWith_append _ (List.ne_nil_of_mem mem), scan_append .whole mem]
    split
    · rw [Option.map_map]
      rfl
    · rfl

end Numeral

/-! ## Quoted texts -/

theorem hexNumber?_append {count : Nat} : ∀ {value n : Nat} {t rest : Text},
    hexNumber? value count t = some (n, rest) → ∀ u, hexNumber? value count (t ++ u) = some (n, rest ++ u) := by
  induction count with
  | zero =>
    intro value n t rest found u
    cases found
    rfl
  | succ count ih =>
    intro value n t rest found u
    cases t with
    | nil => cases found
    | cons c t =>
      obtain ⟨d, digit, found⟩ := Option.bind_eq_some_iff.1 found
      exact Option.bind_eq_some_iff.2 ⟨d, digit, ih found u⟩

namespace Expression

theorem number?_append {count n : Nat} (found : number? count t = some (n, rest)) (mem : '}' ∈ rest) (u : Text) :
    number? count (t ++ u) = some (n, rest ++ u) := by
  have signless {c : Char} (ne : c ≠ '+') (t : Text) : number? count (c :: t) = hexNumber? 0 count (c :: t) := by
    unfold number?
    split
    · rename_i eq
      exact absurd (List.cons.inj eq).1 ne
    · rfl
  cases t with
  | nil =>
    obtain ⟨lead, eq⟩ := exists_of_number? found
    rw [(List.append_eq_nil_iff.1 eq.symm).2] at mem
    cases mem
  | cons c t =>
    by_cases plus : c = '+'
    · subst plus
      rw [number?] at found
      rw [List.cons_append, number?]
      split at found
      · cases found
      · rename_i long
        rw [if_neg long]
        exact hexNumber?_append found u
    · rw [signless plus] at found
      rw [List.cons_append, signless plus]
      exact hexNumber?_append found u

theorem unicodeEscape?_append {c : Char} (found : Quoted.unicodeEscape? (number? 4) t = some (c, rest))
    (mem : '}' ∈ rest) (u : Text) : Quoted.unicodeEscape? (number? 4) (t ++ u) = some (c, rest ++ u) := by
  obtain ⟨⟨high, t₁⟩, read, found₁⟩ := Option.bind_eq_some_iff.1 found
  dsimp only at found₁
  unfold Quoted.unicodeEscape?
  split at found₁
  · rename_i surrogate
    obtain ⟨t₂, dropped, found₂⟩ := Option.bind_eq_some_iff.1 found₁
    obtain ⟨⟨low, t₃⟩, read', found₃⟩ := Option.bind_eq_some_iff.1 found₂
    dsimp only at found₃
    split at found₃
    · rename_i pair
      obtain ⟨char, rfl⟩ := Prod.mk.inj (Option.some.inj found₃)
      obtain ⟨lead', rfl⟩ := exists_of_number? read'
      rw [dropLead?_eq_some_iff.1 dropped] at read
      have behind : dropLead? ['\\', 'u'] (['\\', 'u'] ++ (lead' ++ t₃) ++ u) = some (lead' ++ t₃ ++ u) :=
        dropLead?_eq_some_iff.2 (List.append_assoc ..)
      rw [number?_append read (by simp [mem])]
      simp only [Option.bind_eq_bind, Option.bind_some, if_pos surrogate, behind, number?_append read' mem,
        if_pos pair, ← char]
      rfl
    · cases found₃
  · rename_i surrogate
    split at found₁
    · rename_i plain
      obtain ⟨char, rfl⟩ := Prod.mk.inj (Option.some.inj found₁)
      rw [number?_append read mem]
      simp only [Option.bind_eq_bind, Option.bind_some, if_neg surrogate, if_pos plain, ← char]
      rfl
    · cases found₁

theorem octalEscape?_append (mem : '}' ∈ t) (u : Text) :
    octalEscape? (t ++ u) = (octalEscape? t).map fun p => (p.1, p.2 ++ u) := by
  have digits : ((t ++ u).take 3).takeWhile isOctal = (t.take 3).takeWhile isOctal := by
    rw [← List.take_takeWhile, ← List.take_takeWhile, takeWhile_append_of_mem (by decide) mem]
  have short : ((t.take 3).takeWhile isOctal).length ≤ t.length :=
    (List.takeWhile_prefix _).length_le.trans (List.length_take_le' 3 t)
  unfold octalEscape?
  rw [digits]
  dsimp only
  rw [List.drop_append_of_le_length short, Option.map_map]
  rfl

theorem escape?_append {s : Text} (found : escape? t = some (s, rest)) (mem : '}' ∈ rest) (u : Text) :
    escape? (t ++ u) = some (s, rest ++ u) := by
  have mem' : '}' ∈ t := by
    obtain ⟨lead, rfl⟩ := exists_of_escape? found
    exact List.mem_append_right lead mem
  cases t with
  | nil => cases found
  | cons c t =>
    rw [List.cons_append, escape?]
    rw [escape?] at found
    split at found
    · rename_i unicode
      obtain ⟨⟨d, r⟩, read, eq⟩ := Option.map_eq_some_iff.1 found
      cases eq
      rw [if_pos unicode, unicodeEscape?_append read mem]
      rfl
    · rename_i not_unicode
      rw [if_neg not_unicode]
      split at found
      · rename_i hex
        obtain ⟨⟨n, r⟩, read, eq⟩ := Option.map_eq_some_iff.1 found
        cases eq
        rw [if_pos hex, number?_append read mem]
        rfl
      · rename_i not_hex
        rw [if_neg not_hex]
        rw [← List.cons_append, octalEscape?_append mem']
        cases octal : octalEscape? (c :: t) with
        | some p =>
          rw [octal] at found
          cases found
          rfl
        | none =>
          rw [octal] at found
          dsimp only [Option.map_none] at found ⊢
          split at found
          · cases found
            rfl
          · cases found
            rfl

/-- A longer text has more fuel as well. -/
theorem bodyUpTo?_append {quote : Char} {plain : Char → Bool} {count : Nat} : ∀ {count' : Nat} {t s rest : Text},
    Quoted.bodyUpTo? escape? quote plain count t = some (s, rest) → '}' ∈ rest → count ≤ count' →
      ∀ u, Quoted.bodyUpTo? escape? quote plain count' (t ++ u) = some (s, rest ++ u) := by
  induction count with
  | zero =>
    intro count' t s rest found
    cases found
  | succ count ih =>
    intro count' t s rest found mem enough u
    obtain ⟨count', rfl⟩ := Nat.exists_eq_add_of_le' (Nat.le_trans (Nat.succ_pos count) enough)
    have enough' := Nat.le_of_succ_le_succ enough
    cases t with
    | nil => cases found
    | cons c t =>
      rw [List.cons_append]
      unfold Quoted.bodyUpTo? at found ⊢
      split at found
      · rename_i closes
        cases found
        exact if_pos closes
      · rename_i not_closes
        rw [if_neg not_closes]
        split at found
        · rename_i backslash
          obtain ⟨⟨e, t₁⟩, read, found⟩ := Option.bind_eq_some_iff.1 found
          obtain ⟨⟨s', t₂⟩, read', eq⟩ := Option.bind_eq_some_iff.1 found
          cases eq
          have mem' : '}' ∈ t₁ := by
            obtain ⟨lead, rfl⟩ := exists_of_bodyUpTo? read'
            exact List.mem_append_right lead (List.mem_cons_of_mem quote mem)
          rw [if_pos backslash, escape?_append read mem']
          simp only [Option.bind_eq_bind, Option.bind_some, ih read' mem enough' u]
          rfl
        · rename_i not_backslash
          rw [if_neg not_backslash]
          split at found
          · rename_i ordinary
            obtain ⟨⟨s', t₁⟩, read, eq⟩ := Option.map_eq_some_iff.1 found
            cases eq
            rw [if_pos ordinary, ih read mem enough' u]
            rfl
          · cases found

theorem quoted?_append {s : Text} (found : quoted? t = some (s, rest)) (mem : '}' ∈ rest) (u : Text) :
    quoted? (t ++ u) = some (s, rest ++ u) := by
  cases t with
  | nil => cases found
  | cons c t =>
    rw [quoted?] at found
    rw [List.cons_append, quoted?]
    split at found
    · rename_i quote
      rw [if_pos quote]
      refine bodyUpTo?_append found mem ?_ u
      rw [List.length_append]
      omega
    · cases found

/-! ## Expressions -/

theorem skip_append (mem : '}' ∈ t) (u : Text) : skip (t ++ u) = skip t ++ u := dropWhile_append_of_mem (by decide) mem u

theorem mem_skip (mem : '}' ∈ t) : '}' ∈ skip t := mem_dropWhile (by decide) mem

theorem quotedTexts?_append {count : Nat} : ∀ {count' : Nat} {t s rest : Text},
    quotedTexts? count t = some (s, rest) → '}' ∈ rest → count ≤ count' →
      ∀ u, quotedTexts? count' (t ++ u) = some (s, rest ++ u) := by
  induction count with
  | zero =>
    intro count' t s rest found
    cases found
  | succ count ih =>
    intro count' t s rest found mem enough u
    obtain ⟨count', rfl⟩ := Nat.exists_eq_add_of_le' (Nat.le_trans (Nat.succ_pos count) enough)
    obtain ⟨⟨s', t₁⟩, read, found⟩ := Option.bind_eq_some_iff.1 found
    dsimp only at found
    rw [quotedTexts?]
    split at found
    · rename_i another
      obtain ⟨⟨s₂, t₂⟩, read', eq⟩ := Option.map_eq_some_iff.1 found
      cases eq
      have mem' : '}' ∈ t₁ := (takes_skip t₁).mem ((takes_quotedTexts? read').mem mem)
      rw [quoted?_append read mem']
      simp only [Option.bind_eq_bind, Option.bind_some, skip_append mem',
        startsWith_append _ (List.ne_nil_of_mem (mem_skip mem')), if_pos another,
        ih read' mem (Nat.le_of_succ_le_succ enough) u, Option.map_some]
    · rename_i no_other
      cases found
      rw [quoted?_append read mem]
      simp only [Option.bind_eq_bind, Option.bind_some, skip_append mem,
        startsWith_append _ (List.ne_nil_of_mem (mem_skip mem)), if_neg no_other]
      rfl

theorem name?_append (mem : '}' ∈ t) (u : Text) : name? (t ++ u) = (name? t).map fun p => (p.1, p.2 ++ u) := by
  unfold name?
  rw [startsWith_append _ (List.ne_nil_of_mem mem), takeWhile_append_of_mem (by decide) mem, dropWhile_append_of_mem (by decide) mem]
  split <;> rfl

theorem signed?_append (negative : Bool) (mem : '}' ∈ t) (u : Text) :
    signed? negative (t ++ u) = (signed? negative t).map fun p => (p.1, p.2 ++ u) := by
  rw [signed?, signed?, Numeral.read?_append mem]
  cases Numeral.read? t with
  | none => rfl
  | some p =>
    dsimp only [Option.map_some, Option.bind_some]
    rw [Option.map_map]
    rfl

theorem atom?_append {e : Expression} (found : atom? t = some (e, rest)) (mem : '}' ∈ rest) (u : Text) :
    atom? (t ++ u) = some (e, rest ++ u) := by
  have mem' : '}' ∈ t := (takes_atom? found).mem mem
  have nonempty := List.ne_nil_of_mem mem'
  unfold atom? at found ⊢
  simp only [startsWith_append _ nonempty]
  split at found
  · rename_i digit
    rw [if_pos digit, signed?_append _ mem', found]
    rfl
  · rename_i no_digit
    rw [if_neg no_digit]
    split at found
    · rename_i minus
      have behind : '}' ∈ t.drop 1 := by
        cases t with
        | nil => cases minus
        | cons c t =>
          refine List.mem_of_ne_of_mem ?_ mem'
          rintro rfl
          cases minus
      rw [if_pos minus, List.drop_append_of_le_length (List.length_pos_iff.2 nonempty), skip_append behind,
        signed?_append _ (mem_skip behind), found]
      rfl
    · rename_i no_minus
      rw [if_neg no_minus]
      split at found
      · rename_i quote
        obtain ⟨⟨s, r⟩, read, eq⟩ := Option.map_eq_some_iff.1 found
        cases eq
        rw [if_pos quote, quotedTexts?_append read mem (by simp) u]
        rfl
      · rename_i no_quote
        obtain ⟨⟨name, r⟩, read, found⟩ := Option.bind_eq_some_iff.1 found
        obtain ⟨e', named, eq⟩ := Option.map_eq_some_iff.1 found
        cases eq
        rw [if_neg no_quote, name?_append mem', read]
        dsimp only [Option.map_some, Option.bind_some]
        rw [named]
        rfl

theorem step?_append {e e' : Expression} (found : step? e t = some (e', rest)) (mem : '}' ∈ rest) (u : Text) :
    step? e (t ++ u) = some (e', rest ++ u) := by
  have mem' : '}' ∈ t := (takes_step? found).mem mem
  unfold step? at found ⊢
  rw [name?_append mem', Numeral.read?_append mem']
  split at found
  · rename_i name r read
    cases found
    rw [read]
    rfl
  · rename_i index r unnamed read
    cases found
    rw [unnamed, read]
    rfl
  · cases found

theorem steps?_dot {e : Expression} {t' : Text} (dot : skip t = '.' :: t') (count : Nat) :
    steps? (count + 1) e t = (step? e (skip t')).bind fun p => steps? count p.1 p.2 := by
  rw [steps?.eq_def]
  dsimp only
  rw [dot]
  rfl

theorem steps?_done {e : Expression} (done : ∀ t', skip t ≠ '.' :: t') (count : Nat) :
    steps? count e t = some (e, skip t) := by
  unfold steps?
  split
  · rename_i eq
    exact absurd eq (done _)
  · rename_i eq
    exact absurd eq (done _)
  · rfl

/-- Steps are at an end, or there is one more behind a point. -/
theorem of_steps? {count : Nat} {e e' : Expression} (found : steps? count e t = some (e', rest)) :
    ((∀ t', skip t ≠ '.' :: t') ∧ e' = e ∧ rest = skip t) ∨
      ∃ count' t' e₁ t₁, count = count' + 1 ∧ skip t = '.' :: t' ∧ step? e (skip t') = some (e₁, t₁) ∧
        steps? count' e₁ t₁ = some (e', rest) := by
  by_cases dot : ∃ t', skip t = '.' :: t'
  · obtain ⟨t', dot⟩ := dot
    cases count with
    | zero =>
      rw [steps?.eq_def] at found
      dsimp only at found
      rw [dot] at found
      cases found
    | succ count =>
      rw [steps?_dot dot] at found
      obtain ⟨⟨e₁, t₁⟩, read, found₁⟩ := Option.bind_eq_some_iff.1 found
      exact .inr ⟨count, t', e₁, t₁, rfl, dot, read, found₁⟩
  · have done : ∀ t', skip t ≠ '.' :: t' := fun t' eq => dot ⟨t', eq⟩
    rw [steps?_done done] at found
    cases found
    exact .inl ⟨done, rfl, rfl⟩

theorem steps?_append {count : Nat} : ∀ {count' : Nat} {e e' : Expression} {t rest : Text},
    steps? count e t = some (e', rest) → '}' ∈ rest → count ≤ count' →
      ∀ u, steps? count' e (t ++ u) = some (e', rest ++ u) := by
  induction count using Nat.strongRecOn with
  | ind count ih =>
    intro count' e e' t rest found mem enough u
    have mem' : '}' ∈ t := (takes_steps? found).mem mem
    have behind := skip_append mem' u
    rcases of_steps? found with ⟨done, rfl, rfl⟩ | ⟨count, t', e₁, t₁, rfl, dot, read, found₁⟩
    · rw [← behind]
      refine steps?_done (fun t' eq => ?_) count'
      cases here : skip t with
      | nil => exact absurd here (List.ne_nil_of_mem (mem_skip mem'))
      | cons c t₁ =>
        rw [behind, here] at eq
        obtain ⟨rfl, -⟩ := List.cons.inj eq
        exact done t₁ here
    · obtain ⟨count', rfl⟩ := Nat.exists_eq_add_of_le' (Nat.le_trans (Nat.succ_pos count) enough)
      have mem₁ : '}' ∈ t₁ := (takes_steps? found₁).mem mem
      have mem₂ : '}' ∈ t' := (takes_skip t').mem ((takes_step? read).mem mem₁)
      rw [dot, List.cons_append] at behind
      rw [steps?_dot behind, skip_append mem₂, step?_append read mem₁]
      exact ih count (Nat.lt_succ_self count) found₁ mem (Nat.le_of_succ_le_succ enough) u

theorem read?_append {e : Expression} (found : read? t = some (e, rest)) (mem : '}' ∈ rest) (u : Text) :
    read? (t ++ u) = some (e, rest ++ u) := by
  obtain ⟨⟨e₁, t₁⟩, atom, found₁⟩ := Option.bind_eq_some_iff.1 found
  have mem₁ : '}' ∈ t₁ := (takes_steps? found₁).mem mem
  have mem₂ : '}' ∈ t := (takes_skip t).mem ((takes_atom? atom).mem mem₁)
  rw [read?, skip_append mem₂, atom?_append atom mem₁]
  exact steps?_append found₁ mem (by simp) u

end Expression

end TagTemplate
