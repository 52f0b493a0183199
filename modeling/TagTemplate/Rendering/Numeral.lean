/-
# Rendering.Numeral -- numbers in the rendering language

A number starts with a digit.  It is a whole number in base ten, or after `0x`,
`0o` or `0b` in another base; or it has a fraction or an exponent.  Low lines may
stand anywhere but at its start and its end.  Whole numbers have at most 128
bits, and a fraction too great for a binary64 number is infinite.  A point before
a name does not belong to the number, unless the name could be an exponent.

`Numeral.read?` takes as much of a text as can belong to a number and then asks
whether that is one, so `1e` is no number, and neither is `0x`.
-/
import TagTemplate.Value

namespace TagTemplate

set_option autoImplicit false

open Text

inductive Numeral where
  | whole (n : Nat)
  | fraction (x : Binary64)
  /-- Too great a fraction. -/
  | infinite
  deriving DecidableEq, Repr

namespace Numeral

/-! ## Extent -/

/-- The parts of a number in base ten. -/
inductive Part where
  | whole
  | fraction
  /-- The letter of an exponent. -/
  | mark
  | exponent
  deriving DecidableEq, Repr

def isNameStart (c : Char) : Bool := c.isAlpha || c == '_'

/-- Whether a whole number stands here, with or without a sign. -/
def startsInteger : Text → Bool
  | '+' :: t => startsWith Char.isDigit t
  | '-' :: t => startsWith Char.isDigit t
  | t => startsWith Char.isDigit t

/-- Whether a name stands here that is not the exponent of a number. -/
def startsField : Text → Bool
  | [] => false
  | c :: t => isNameStart c && !((c == 'e' || c == 'E') && startsInteger t)

/-- The part that a character belongs to after a part, if it belongs to the number; `t` is the text
after the character. -/
def Part.next? (p : Part) (c : Char) (t : Text) : Option Part :=
  if c = '_' then some p
  else
    match p with
    | .whole =>
      if c.isDigit then some .whole
      else if c = '.' ∧ !startsField t then some .fraction
      else if c = 'e' ∨ c = 'E' then some .mark
      else none
    | .fraction =>
      if c.isDigit then some .fraction
      else if c = 'e' ∨ c = 'E' then some .mark
      else none
    | .mark => if c.isDigit ∨ c = '+' ∨ c = '-' then some .exponent else none
    | .exponent => if c.isDigit then some .exponent else none

/-- The characters that belong to a number from a part on, the last part, and the text after them. -/
def scan (p : Part) : Text → Part × Text × Text
  | [] => (p, [], [])
  | c :: t =>
    match p.next? c t with
    | some q =>
      let (last, word, rest) := scan q t
      (last, c :: word, rest)
    | none => (p, [], c :: t)

/-- The base that a number starts with, other than ten, and the text after that. -/
def base? : Text → Option (Nat × Text)
  | '0' :: c :: t =>
    if c = 'x' ∨ c = 'X' then some (16, t)
    else if c = 'o' ∨ c = 'O' then some (8, t)
    else if c = 'b' ∨ c = 'B' then some (2, t)
    else none
  | _ => none

def isBaseChar (base : Nat) (c : Char) : Bool :=
  c.isDigit || c == '_' || (base == 16 && (hexValue? c).isSome)

/-! ## Value -/

/-- A word without its low lines, none of which may be its last character. -/
def plain? (word : Text) : Option Text :=
  if word.getLast? = some '_' then none else some (word.filter (· != '_'))

def whole? (base : Nat) (digits : Text) : Option Numeral :=
  (numberIn? base digits).bind fun n =>
    if n ≤ 0xFFFFFFFFFFFFFFFFFFFFFFFFFFFFFFFF then some (.whole n) else none

def ofDecimal (d : Binary64.Decimal) : Numeral := (d.nearest?).elim .infinite .fraction

/-- The number that a word with a fraction or an exponent writes. -/
def fractional? (word : Text) : Option Numeral :=
  let digits := word.takeWhile fun c => c != 'e' && c != 'E'
  let places := (digits.dropWhile (· != '.')).length - 1
  match Value.exponent? (word.drop digits.length) with
  | some (power, []) =>
    some (ofDecimal ⟨Value.ofDigits (digits.filter Char.isDigit), power.getD 0 - (places : Int)⟩)
  | _ => none

def read? (t : Text) : Option (Numeral × Text) :=
  match base? t with
  | some (base, t) =>
    let word := t.takeWhile (isBaseChar base)
    ((plain? word).bind (whole? base)).map (·, t.dropWhile (isBaseChar base))
  | none =>
    if startsWith Char.isDigit t then
      let (part, word, rest) := scan .whole t
      let value? := if part = .whole then whole? 10 else fractional?
      ((plain? word).bind value?).map (·, rest)
    else none

end Numeral

end TagTemplate
