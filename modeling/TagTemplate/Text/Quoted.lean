/-
# Text.Quoted -- texts between double quotes

Two ways to write any text as one quoted literal:

* `Quoted.json` writes a JSON string literal, and `Quoted.read?` reads one back:
  `\"`, `\\`, the five short escapes and `\u` with four hexadecimal digits, two
  of those for a character beyond the first plane.
* `Quoted.shown` writes a literal for a reader: a character that does not show by
  itself is written as its number.
-/
import TagTemplate.Text.Unseen

namespace TagTemplate.Text

set_option autoImplicit false

/-! ## Hexadecimal digits -/

def hexValue? (c : Char) : Option Nat :=
  if '0' ≤ c ∧ c ≤ '9' then some (c.toNat - '0'.toNat)
  else if 'a' ≤ c ∧ c ≤ 'f' then some (c.toNat - 'a'.toNat + 10)
  else if 'A' ≤ c ∧ c ≤ 'F' then some (c.toNat - 'A'.toNat + 10)
  else none

/-- The number that the first `count` characters write in hexadecimal, and the text after them. -/
def hexNumber? (value : Nat) : Nat → Text → Option (Nat × Text)
  | 0, t => some (value, t)
  | _ + 1, [] => none
  | count + 1, c :: t => do hexNumber? (value * 16 + (← hexValue? c)) count t

def numberIn? (base : Nat) (t : Text) : Option Nat :=
  if t.isEmpty then none
  else t.foldlM (fun n c =>
    (hexValue? c).bind fun d => if d < base then some (n * base + d) else none) 0

/-- The last `count` hexadecimal digits of a number. -/
def hexDigits (count n : Nat) : Text :=
  match count with
  | 0 => []
  | count + 1 => hexDigits count (n / 16) ++ [Nat.digitChar (n % 16)]

namespace Quoted

/-! ## JSON string literals -/

/-- How a character is written inside a JSON string literal. -/
def jsonChar (c : Char) : Text :=
  if c = '"' then ['\\', '"']
  else if c = '\\' then ['\\', '\\']
  else if c = '\x08' then ['\\', 'b']
  else if c = '\t' then ['\\', 't']
  else if c = '\n' then ['\\', 'n']
  else if c = '\x0c' then ['\\', 'f']
  else if c = '\r' then ['\\', 'r']
  else if c.toNat < 0x20 then '\\' :: 'u' :: hexDigits 4 c.toNat
  else [c]

def json (t : Text) : Text := '"' :: t.flatMap jsonChar ++ ['"']

def shortEscape? (c : Char) : Option Char :=
  if c = '"' ∨ c = '\\' ∨ c = '/' then some c
  else if c = 'b' then some '\x08'
  else if c = 't' then some '\t'
  else if c = 'n' then some '\n'
  else if c = 'f' then some '\x0c'
  else if c = 'r' then some '\r'
  else none

/-- The character of a `\u` escape, after the `u`, and the text after it; `number?` reads the four
digits. -/
def unicodeEscape? (number? : Text → Option (Nat × Text)) (t : Text) : Option (Char × Text) := do
  let (high, t) ← number? t
  if 0xD800 ≤ high ∧ high < 0xDC00 then
    let t ← dropLead? ['\\', 'u'] t
    let (low, t) ← number? t
    if 0xDC00 ≤ low ∧ low < 0xE000 then
      return (Char.ofNat (0x10000 + (high - 0xD800) * 0x400 + (low - 0xDC00)), t)
    else
      none
  else if high < 0xDC00 ∨ 0xE000 ≤ high then
    return (Char.ofNat high, t)
  else
    none

/-- What an escape of a JSON string literal stands for, after the backslash, and the text after it. -/
def jsonEscape? : Text → Option (Text × Text)
  | 'u' :: t => (unicodeEscape? (hexNumber? 0 4) t).map fun p => ([p.1], p.2)
  | c :: t => (shortEscape? c).map ([·], t)
  | [] => none

/-- The text of a literal before its closing quote, and what follows that.  `escape?` reads what
stands after a backslash, and `plain` says which characters may stand for themselves; `count` bounds
the length. -/
def bodyUpTo? (escape? : Text → Option (Text × Text)) (quote : Char) (plain : Char → Bool) :
    Nat → Text → Option (Text × Text)
  | 0, _ => none
  | _ + 1, [] => none
  | count + 1, c :: t =>
    if c = quote then some ([], t)
    else if c = '\\' then do
      let (e, t) ← escape? t
      let (s, t) ← bodyUpTo? escape? quote plain count t
      return (e ++ s, t)
    else if plain c then (bodyUpTo? escape? quote plain count t).map fun p => (c :: p.1, p.2)
    else none

/-- The text of a literal of any length before its closing quote, and what follows that. -/
def body? (escape? : Text → Option (Text × Text)) (quote : Char) (plain : Char → Bool) (t : Text) :
    Option (Text × Text) :=
  bodyUpTo? escape? quote plain (t.length + 1) t

/-- The text of a JSON string literal at this place, and what follows it. -/
def read? (plain : Char → Bool) : Text → Option (Text × Text)
  | '"' :: t => body? jsonEscape? '"' plain t
  | _ => none

/-! ## Literals for a reader -/

/-- How a character is written inside a literal for a reader. -/
def shownChar (c : Char) : Text :=
  if c = '"' then ['\\', '"']
  else if c = '\\' then ['\\', '\\']
  else if c = '\t' then ['\\', 't']
  else if c = '\n' then ['\\', 'n']
  else if c = '\r' then ['\\', 'r']
  else if c = '\x00' then ['\\', '0']
  else if isUnseen c then "\\u\x7b".toList ++ Nat.toDigits 16 c.toNat ++ ['}']
  else [c]

def shown (t : Text) : Text := '"' :: t.flatMap shownChar ++ ['"']

end Quoted

end TagTemplate.Text
