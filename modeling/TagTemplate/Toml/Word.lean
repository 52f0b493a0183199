/-
# Toml.Word -- the words of a document

Blanks and comments, strings, keys, and values that are one word.  A reader takes
the text at its place and gives what it read with the text that follows; what is
malformed gives nothing.
-/
import TagTemplate.Text.Quoted
import TagTemplate.Toml.Table

namespace TagTemplate.Toml

set_option autoImplicit false

open Text

/-! ## Blanks and line breaks -/

def skip (t : Text) : Text := t.dropWhile isBlank

/-- Whether a character may stand in a comment or a literal string. -/
def isPlain (c : Char) : Bool := c == '\t' || (0x20 ≤ c.toNat && c.toNat != 0x7F)

def lineBreak? : Text → Option Text
  | '\n' :: t => some t
  | '\r' :: '\n' :: t => some t
  | _ => none

def skipComment : Text → Text
  | '#' :: t => t.dropWhile isPlain
  | t => t

/-- What follows the rest of a line that holds nothing more. -/
def endOfLine? (t : Text) : Option Text :=
  match skipComment (skip t) with
  | [] => some []
  | t => lineBreak? t

/-- Drop blanks, comments and line breaks; at most `count` of the latter. -/
def skipLines : Nat → Text → Text
  | 0, t => skip t
  | count + 1, t =>
    match lineBreak? (skipComment (skip t)) with
    | some t => skipLines count t
    | none => skip t

/-- Drop blanks, comments and line breaks. -/
def skipGap (t : Text) : Text := skipLines t.length t

/-! ## Strings -/

def shortEscape? (c : Char) : Option Char :=
  if c = '/' then none
  else if c = 'e' then some '\x1b'
  else Quoted.shortEscape? c

/-- How many hexadecimal digits follow a letter that escapes a character by its number. -/
def escapeDigits? (c : Char) : Option Nat :=
  if c = 'x' then some 2
  else if c = 'u' then some 4
  else if c = 'U' then some 8
  else none

def charOf? (n : Nat) : Option Char := if n.isValidChar then some (Char.ofNat n) else none

/-- What an escape of a basic string stands for, after the backslash, and the text after it. -/
def escape? : Text → Option (Text × Text)
  | c :: t =>
    match escapeDigits? c with
    | some digits => (hexNumber? 0 digits t).bind fun p => (charOf? p.1).map ([·], p.2)
    | none => (shortEscape? c).map ([·], t)
  | [] => none

def string? : Text → Option (Text × Text)
  | '"' :: t => Quoted.body? escape? '"' isPlain t
  | '\x27' :: t => (cut? ['\x27'] t).bind fun p => if p.1.all isPlain then some p else none
  | _ => none

/-! ## Keys -/

def isBareChar (c : Char) : Bool := c.isAlphanum || c == '_' || c == '-'

def simpleKey? (t : Text) : Option (Text × Text) :=
  match string? t with
  | some r => some r
  | none =>
    let key := t.takeWhile isBareChar
    if key.isEmpty then none else some (key, t.dropWhile isBareChar)

def maxParts : Nat := 80

/-- A key with dots between its parts, at most `count` of them. -/
def key? : Nat → Text → Option (List Text × Text)
  | 0, _ => none
  | count + 1, t => do
    let (key, t) ← simpleKey? (skip t)
    match skip t with
    | '.' :: t =>
      let (keys, t) ← key? count t
      return (key :: keys, t)
    | t => return ([key], t)

/-! ## Booleans and integers -/

/-- The number that digits with single underscores between them write in a base. -/
def digitsOf? (base : Nat) (t : Text) : Option Nat :=
  if t.isEmpty ∨ t.head? = some '_' ∨ t.getLast? = some '_' ∨ (cut? ['_', '_'] t).isSome then none
  else numberIn? base (t.filter (· != '_'))

/-- The number that decimal digits write, without zeros in front. -/
def decimalOf? (t : Text) : Option Nat :=
  if 1 < t.length ∧ t.head? = some '0' then none else digitsOf? 10 t

def integer? : Text → Option Int
  | '0' :: 'x' :: t => (digitsOf? 16 t).map Int.ofNat
  | '0' :: 'o' :: t => (digitsOf? 8 t).map Int.ofNat
  | '0' :: 'b' :: t => (digitsOf? 2 t).map Int.ofNat
  | '+' :: t => (decimalOf? t).map Int.ofNat
  | '-' :: t => (decimalOf? t).map fun n => -(n : Int)
  | t => (decimalOf? t).map Int.ofNat

def isWordChar (c : Char) : Bool := c.isAlphanum || c == '_' || c == '+' || c == '-'

def word? (t : Text) : Option (Item × Text) :=
  let word := t.takeWhile isWordChar
  let rest := t.dropWhile isWordChar
  if word = "true".toList then some (.bool true, rest)
  else if word = "false".toList then some (.bool false, rest)
  else (integer? word).map fun i => (.int i, rest)

end TagTemplate.Toml
