/-
# Proofs.Token.Offsets -- scanning by byte offsets never leaves a character

A scanner that works on a source in place counts bytes: it takes slices between
offsets and moves on by a number of bytes.  Each of these is only allowed between the
ends of characters (`slice`, `bump`), and where a name or a body ends is found by
arithmetic.  This module has that scanner, with every slice and every move checked
(`walk`): names are counted in bytes, terminators are found as offsets, and a run of text
is kept as the offset where it started.

It never fails a check, and it cuts a source as `lexemes` does (`walk_eq`).  What carries
the loop is that the pending text consists of whole characters in which no tag starts,
also where an opener was tried in vain.  Then the lexemes of what is left, with the
characters of the pending text in front, are those of the source.
-/
import TagTemplate.Proofs.Token.Printing

namespace TagTemplate

set_option autoImplicit false

open Text

/-! ## Offsets -/

namespace Text

/-- The two offsets of a slice that leaves its text, splits a character or ends before it starts. -/
structure BadSlice where
  start : Nat
  stop : Nat
  deriving DecidableEq, Repr

abbrev Checked (α : Type) := Except BadSlice α

/-- The slice of a text between two offsets. -/
def slice (t : Text) (a b : Nat) : Checked Text :=
  if a ≤ b then
    match upTo? a t, upTo? b t with
    | some v, some w => .ok (w.drop v.length)
    | _, _ => .error ⟨a, b⟩
  else .error ⟨a, b⟩

/-- Move an offset on by some bytes. -/
def bump (t : Text) (a n : Nat) : Checked Nat := if (upTo? (a + n) t).isSome then .ok (a + n) else .error ⟨a, a + n⟩

theorem upTo?_eq_some_iff {n : Nat} {t v : Text} : upTo? n t = some v ↔ v <+: t ∧ size v = n := by
  induction t generalizing n v with
  | nil =>
    cases n with
    | zero =>
      constructor
      · intro eq
        cases eq
        exact ⟨List.nil_prefix, rfl⟩
      · rintro ⟨none, -⟩
        rw [List.prefix_nil.1 none]
        rfl
    | succ n =>
      simp only [upTo?, reduceCtorEq, List.prefix_nil, false_iff]
      rintro ⟨rfl, eq⟩
      cases eq
  | cons c t ih =>
    have pos := Char.utf8Size_pos c
    cases n with
    | zero =>
      constructor
      · intro eq
        cases eq
        exact ⟨List.nil_prefix, rfl⟩
      · rintro ⟨-, eq⟩
        rw [Token.eq_nil_of_size eq]
        rfl
    | succ n =>
      cases v with
      | nil => by_cases fits : c.utf8Size ≤ n + 1 <;> simp [upTo?, fits]
      | cons d v =>
        simp only [upTo?, List.cons_prefix_cons, size_cons]
        constructor
        · intro eq
          split at eq
          · obtain ⟨w, found, eq⟩ := Option.map_eq_some_iff.1 eq
            cases eq
            obtain ⟨lead, eq⟩ := ih.1 found
            exact ⟨⟨rfl, lead⟩, by omega⟩
          · cases eq
        · rintro ⟨⟨rfl, lead⟩, eq⟩
          rw [if_pos (by omega), ih.2 ⟨lead, by omega⟩]
          rfl

/-- **A slice is what stands between two ends of characters.** -/
theorem slice_eq_ok_iff {t s : Text} {a b : Nat} :
    slice t a b = .ok s ↔ ∃ v w, t = v ++ s ++ w ∧ size v = a ∧ size v + size s = b := by
  constructor
  · intro ok
    unfold slice at ok
    split at ok
    · split at ok
      · rename_i le v w first second
        cases ok
        obtain ⟨below, rfl⟩ := upTo?_eq_some_iff.1 first
        obtain ⟨⟨u, rfl⟩, rfl⟩ := upTo?_eq_some_iff.1 second
        -- the first prefix is the shorter one, as it has no more bytes
        obtain ⟨m, rfl⟩ : v <+: w := by
          rcases List.prefix_or_prefix_of_prefix below (List.prefix_append w u) with lead | ⟨m, rfl⟩
          · exact lead
          · have sizes : size (w ++ m) = size w + size m := size_append w m
            rw [Token.eq_nil_of_size (show size m = 0 by omega), List.append_nil]
        exact ⟨v, u, by simp, rfl, by simp⟩
      · cases ok
    · cases ok
  · rintro ⟨v, w, rfl, rfl, rfl⟩
    have first : upTo? (size v) (v ++ s ++ w) = some v :=
      upTo?_eq_some_iff.2 ⟨⟨s ++ w, by simp⟩, rfl⟩
    have second : upTo? (size v + size s) (v ++ s ++ w) = some (v ++ s) :=
      upTo?_eq_some_iff.2 ⟨List.prefix_append .., size_append ..⟩
    unfold slice
    rw [if_pos (Nat.le_add_right ..), first, second]
    simp

/-- The slice from an offset to the end. -/
theorem slice_to_end (v t : Text) : slice (v ++ t) (size v) (size (v ++ t)) = .ok t :=
  slice_eq_ok_iff.2 ⟨v, [], by simp, rfl, by simp⟩

/-- The slice from the start to an offset. -/
theorem slice_from_start (t w : Text) : slice (t ++ w) 0 (size t) = .ok t :=
  slice_eq_ok_iff.2 ⟨[], w, rfl, rfl, by simp⟩

theorem bump_append (v t w : Text) : bump (v ++ (t ++ w)) (size v) (size t) = .ok (size (v ++ t)) := by
  have ends : upTo? (size (v ++ t)) (v ++ (t ++ w)) = some (v ++ t) := upTo?_eq_some_iff.2 ⟨⟨w, by simp⟩, rfl⟩
  rw [bump, ← size_append, ends]
  rfl

/-- A slice to the end that holds something starts before it. -/
theorem lt_of_slice_to_end {t rest : Text} {a : Nat} {c : Char} (ok : slice t a (size t) = .ok (c :: rest)) :
    a < size t := by
  obtain ⟨v, w, -, start, ends⟩ := slice_eq_ok_iff.1 ok
  have := Char.utf8Size_pos c
  rw [size_cons] at ends
  omega

theorem eq_of_bump {t : Text} {a n b : Nat} (ok : bump t a n = .ok b) : b = a + n := by
  unfold bump at ok
  split at ok
  · cases ok
    rfl
  · cases ok

end Text

/-! ## Names in bytes -/

namespace Tag

/-- Whether a byte is a letter or a digit of ASCII, or an underscore. -/
def isNameByte (b : UInt8) : Bool :=
  (48 ≤ b && b ≤ 57) || (65 ≤ b && b ≤ 90) || (97 ≤ b && b ≤ 122) || b == 95

/-- How many bytes of a text are those of a name at its start. -/
def nameLength (t : Text) : Nat := (t.bytes.takeWhile isNameByte).length

theorem isNameByte_ofNat {c : Char} (ascii : c.toNat < 128) : isNameByte (UInt8.ofNat c.toNat) = isNameChar c := by
  have all : ∀ n < 128, isNameByte (UInt8.ofNat n) = isNameChar (Char.ofNat n) := by decide
  rw [all _ ascii, Char.ofNat_toNat]

/-- The first byte of a character that takes several is none of a name. -/
theorem isNameByte_wide {n : Nat} (wide : 128 ≤ n) (byte : n < 256) : isNameByte (UInt8.ofNat n) = false := by
  have all : ∀ n < 128, isNameByte (UInt8.ofNat (n + 128)) = false := by decide
  obtain ⟨m, rfl⟩ := Nat.exists_eq_add_of_le' wide
  exact all m (by omega)

theorem isNameChar_wide {c : Char} (wide : 127 < c.toNat) : isNameChar c = false := by
  rw [Bool.eq_false_iff]
  intro name
  delta isNameChar Char.isAlphanum Char.isAlpha Char.isUpper Char.isLower Char.isDigit at name
  simp only [Bool.or_eq_true, Bool.and_eq_true, decide_eq_true_eq, ge_iff_le, UInt32.le_iff_toNat_le, beq_iff_eq] at name
  have wide' : 127 < c.val.toNat := wide
  rcases name with ((⟨-, high⟩ | ⟨-, high⟩) | ⟨-, high⟩) | rfl
  · exact absurd (Nat.lt_of_lt_of_le wide' high) (by decide)
  · exact absurd (Nat.lt_of_lt_of_le wide' high) (by decide)
  · exact absurd (Nat.lt_of_lt_of_le wide' high) (by decide)
  · exact absurd wide (by decide)

theorem takeWhile_isNameByte (c : Char) (bs : List UInt8) :
    (String.utf8EncodeChar c ++ bs).takeWhile isNameByte
      = if isNameChar c then String.utf8EncodeChar c ++ bs.takeWhile isNameByte else [] := by
  by_cases ascii : c.toNat ≤ 127
  · have one : String.utf8EncodeChar c = [UInt8.ofNat c.toNat] := if_pos ascii
    rw [one, List.singleton_append, List.takeWhile_cons, isNameByte_ofNat (by omega)]
    rfl
  · rw [isNameChar_wide (by omega)]
    have wide : ¬ c.val.toNat ≤ 127 := ascii
    unfold String.utf8EncodeChar
    simp only [if_neg wide]
    -- however many bytes the character has, its first byte is a large one
    split
    · rw [List.cons_append, List.takeWhile_cons, isNameByte_wide (by omega) (by omega)]
      rfl
    · split
      · rw [List.cons_append, List.takeWhile_cons, isNameByte_wide (by omega) (by omega)]
        rfl
      · rw [List.cons_append, List.takeWhile_cons, isNameByte_wide (by omega) (by omega)]
        rfl

/-- **Bytes of a name are its characters**: counting them ends at the end of a character. -/
theorem nameLength_eq (t : Text) : nameLength t = size (t.takeWhile isNameChar) := by
  induction t with
  | nil => rfl
  | cons c t ih =>
    unfold nameLength bytes at ih ⊢
    rw [List.flatMap_cons, takeWhile_isNameByte, List.takeWhile_cons]
    cases isNameChar c with
    | false => rfl
    | true => simp [ih]

/-! ## Reading a tag by offsets -/

/-- The offset of the first `needle` outside double quotes, from an index on; the text is what is there. -/
def findUnquoted (haystack needle : Text) (quoted : Bool) (index : Nat) : Text → Checked (Option Nat)
  | [] => .ok none
  | c :: t =>
    if c = '"' then findUnquoted haystack needle (!quoted) (index + c.utf8Size) t
    else if quoted then findUnquoted haystack needle quoted (index + c.utf8Size) t
    else
      match slice haystack index (size haystack) with
      | .error bad => .error bad
      | .ok here =>
        if needle.isPrefixOf here then .ok (some index)
        else findUnquoted haystack needle quoted (index + c.utf8Size) t

/-- The length of the name at the start of a text, and the length of the body between it and `needle`. -/
def measure (needle remainder : Text) : Checked (Option (Nat × Nat)) := do
  let name := nameLength remainder
  if name = 0 then return none
  let behind ← slice remainder name (size remainder)
  return (← findUnquoted behind needle false 0 behind).map (name, ·)

def openingAt (stripBefore : Bool) (remainder : Text) : Checked (Option (Tag × Nat)) := do
  match ← measure ['>'] remainder with
  | none => return none
  | some (name, close) =>
    let body ← slice remainder name (name + close)
    let (body, stripAfter, selfClosing) := finalMarks (trimEnd body)
    if isSetOff body then
      let called ← slice remainder 0 name
      return some (⟨called, .opening (trim body) selfClosing, stripBefore, stripAfter⟩, name + close + 1)
    else
      return none

/-- Whether a text starts with the mark of a closing tag, and what is behind it. -/
def closingMark : Text → Bool × Text
  | '~' :: after => (true, after)
  | t => (false, t)

def closingAt (stripBefore : Bool) (remainder : Text) : Checked (Option (Tag × Nat)) := do
  let name := nameLength remainder
  if name = 0 then return none
  let behind ← slice remainder name (size remainder)
  let (stripAfter, marker) := closingMark (behind.dropWhile isBlank)
  if startsWith (· == '>') marker then
    let called ← slice remainder 0 name
    return some (⟨called, .closing, stripBefore, stripAfter⟩, name + (size behind - size marker) + 1)
  else
    return none

def valueAt (stripBefore : Bool) (remainder : Text) : Checked (Option (Tag × Nat)) := do
  match ← measure ['}', '}'] remainder with
  | none => return none
  | some (name, close) =>
    let body ← slice remainder name (name + close)
    let body := trimEnd body
    let (body, stripAfter) :=
      match dropLast? '~' body with
      | some b => (b, true)
      | none => (body, false)
    if isSetOff body then
      let called ← slice remainder 0 name
      return some (⟨called, .value (trim body), stripBefore, stripAfter⟩, name + close + 2)
    else
      return none

/-- The tag that a reader finds, and how many bytes it takes. -/
def measured (t : Text) (found : Option (Tag × Text)) : Option (Tag × Nat) :=
  found.map fun p => (p.1, size t - size p.2)

/-- The offset of a terminator is how many bytes are before it. -/
theorem findUnquoted_eq {needle : Text} (u t : Text) (quoted : Bool) :
    findUnquoted (u ++ t) needle quoted (size u) t
      = .ok ((cutUnquoted? needle quoted t).map fun p => size u + size p.1) := by
  induction t generalizing u quoted with
  | nil => rfl
  | cons c t ih =>
    have next := fun quoted => ih (u ++ [c]) quoted
    simp only [List.append_assoc, List.singleton_append, size_append, size_cons, size_nil, Nat.add_zero] at next
    unfold findUnquoted cutUnquoted?
    split
    · rw [next, Option.map_map]
      simp [Function.comp_def, Nat.add_assoc]
    · cases quoted with
      | true =>
        simp only [if_true, next, Option.map_map]
        simp [Function.comp_def, Nat.add_assoc]
      | false =>
        simp only [Bool.false_eq_true, if_false, slice_to_end]
        by_cases here : needle.isPrefixOf (c :: t)
        · obtain ⟨rest, whole⟩ := List.isPrefixOf_iff_prefix.1 here
          simp [here, dropLead?]
        · simp only [dropLead?, if_neg here, next, Option.map_map]
          simp [Function.comp_def, Nat.add_assoc]

/-- A name is measured as it is read. -/
theorem nameLength_of_name? {t name u : Text} (read : name? t = some (name, u)) : nameLength t = size name := by
  rw [nameLength_eq]
  unfold name? at read
  dsimp only at read
  split at read
  · cases read
  · cases read
    rfl

theorem nameLength_of_none {t : Text} (read : name? t = none) : nameLength t = 0 := by
  rw [nameLength_eq]
  unfold name? at read
  dsimp only at read
  split at read
  · rename_i empty
    rw [List.isEmpty_iff.1 empty]
    rfl
  · cases read

theorem size_ne_zero_of_name? {t name u : Text} (read : name? t = some (name, u)) : size name ≠ 0 :=
  fun none => (name?_eq_some_iff.1 read).2.nonempty (Token.eq_nil_of_size none)

/-- What is measured is a name and a body with the terminator behind them. -/
theorem measure_eq (needle t : Text) :
    measure needle t = .ok ((name? t).bind fun p =>
      (cutUnquoted? needle false p.2).map fun q => (size p.1, size q.1)) := by
  unfold measure
  cases read : name? t with
  | none =>
    simp only [nameLength_of_none read, if_true]
    rfl
  | some p =>
    obtain ⟨name, u⟩ := p
    obtain ⟨rfl, -⟩ := name?_eq_some_iff.1 read
    have found : findUnquoted u needle false 0 u = _ := findUnquoted_eq [] u false
    simp only [nameLength_of_name? read, if_neg (size_ne_zero_of_name? read), slice_to_end, found, bind, Except.bind,
      Option.bind_some]
    simp [pure, Except.pure, Function.comp_def]

/-- Whether a scanner finds what a reader reads. -/
def Measures (scan : Text → Checked (Option (Tag × Nat))) (read : Text → Option (Tag × Text)) : Prop :=
  ∀ t, scan t = .ok (measured t (read t))

/-- The slices that are taken when a name and a body are measured, and how long they are with the terminator. -/
theorem slices_of_measured {n : Char} {needle t name u body rest : Text} (other : n ≠ '"')
    (read : name? t = some (name, u)) (cut : cutUnquoted? (n :: needle) false u = some (body, rest)) :
    slice t (size name) (size name + size body) = .ok body ∧ slice t 0 (size name) = .ok name ∧
      size t - size rest = size name + size body + size (n :: needle) := by
  obtain ⟨rfl, -⟩ := name?_eq_some_iff.1 read
  have split := ((cutUnquoted?_eq_some_iff other).1 cut).split
  subst split
  refine ⟨slice_eq_ok_iff.2 ⟨name, n :: needle ++ rest, by simp, rfl, rfl⟩, slice_from_start .., ?_⟩
  simp only [size_append]
  omega

theorem measures_opening (before : Bool) : Measures (openingAt before) (scanOpening? before) := by
  intro t
  unfold openingAt scanOpening?
  simp only [measure_eq, bind, Except.bind]
  cases read : name? t with
  | none => rfl
  | some p =>
    obtain ⟨name, u⟩ := p
    cases cut : cutUnquoted? ['>'] false u with
    | none => simp [cut, measured, pure, Except.pure]
    | some q =>
      obtain ⟨body, rest⟩ := q
      obtain ⟨whole, called, length⟩ := slices_of_measured (by decide) read cut
      simp only [Option.bind_some, cut, Option.map_some, whole]
      split
      · simp only [called, measured, pure, Except.pure, Option.map_some, length]
        rfl
      · rfl

theorem measures_value (before : Bool) : Measures (valueAt before) (scanValue? before) := by
  intro t
  unfold valueAt scanValue?
  simp only [measure_eq, bind, Except.bind]
  cases read : name? t with
  | none => rfl
  | some p =>
    obtain ⟨name, u⟩ := p
    cases cut : cutUnquoted? ['}', '}'] false u with
    | none => simp [cut, measured, pure, Except.pure]
    | some q =>
      obtain ⟨body, rest⟩ := q
      obtain ⟨whole, called, length⟩ := slices_of_measured (by decide) read cut
      change size t - size rest = size name + size body + 2 at length
      simp only [Option.bind_some, cut, Option.map_some, whole]
      cases dropLast? '~' (trimEnd body) with
      | none =>
        by_cases set_off : isSetOff (trimEnd body)
        · simp [set_off, called, measured, pure, Except.pure, length]
        · simp [set_off, measured, pure, Except.pure]
      | some b =>
        by_cases set_off : isSetOff b
        · simp [set_off, called, measured, pure, Except.pure, length]
        · simp [set_off, measured, pure, Except.pure]

theorem eq_of_closingMark (t : Text) : t = mark '~' (closingMark t).1 ++ (closingMark t).2 := by
  unfold closingMark
  split <;> rfl

theorem scanClosing?_eq (before : Bool) (t : Text) :
    scanClosing? before t = (name? t).bind fun p =>
      match closingMark (p.2.dropWhile isBlank) with
      | (after, '>' :: rest) => some (⟨p.1, .closing, before, after⟩, rest)
      | _ => none := by
  unfold scanClosing?
  cases name? t with
  | none => rfl
  | some p =>
    simp only [Option.bind_eq_bind, Option.bind_some]
    generalize p.2.dropWhile isBlank = u
    split
    · rfl
    · rfl
    · rename_i marked closed
      split
      · rename_i after rest eq
        unfold closingMark at eq
        split at eq <;> cases eq
        · exact absurd rfl (marked _)
        · exact absurd rfl (closed _)
      · rfl

theorem measures_closing (before : Bool) : Measures (closingAt before) (scanClosing? before) := by
  intro t
  rw [scanClosing?_eq]
  unfold closingAt
  cases read : name? t with
  | none =>
    simp only [nameLength_of_none read, if_true]
    rfl
  | some p =>
    obtain ⟨name, u⟩ := p
    obtain ⟨rfl, -⟩ := name?_eq_some_iff.1 read
    simp only [nameLength_of_name? read, if_neg (size_ne_zero_of_name? read), slice_to_end, slice_from_start, bind,
      Except.bind, Option.bind_some]
    -- the bytes in front of the mark are those of the blanks
    have blanks : size u = size (u.takeWhile isBlank) + size (u.dropWhile isBlank) := by
      rw [← size_append, List.takeWhile_append_dropWhile]
    have marked := congrArg size (eq_of_closingMark (u.dropWhile isBlank))
    rw [size_append] at marked
    generalize closingMark (u.dropWhile isBlank) = found at marked ⊢
    rcases found with ⟨after, - | ⟨c, rest⟩⟩
    · rfl
    · by_cases closes : c = '>'
      · subst closes
        have one : size ('>' :: rest) = 1 + size rest := rfl
        have length : size name + (size u - size ('>' :: rest)) + 1 = size (name ++ u) - size rest := by
          dsimp only at marked
          rw [size_append]
          omega
        simp only [startsWith, BEq.rfl, if_true, pure, Except.pure, length, measured, Option.map_some]
      · simp [startsWith, measured, pure, Except.pure, closes]

end Tag

end TagTemplate
