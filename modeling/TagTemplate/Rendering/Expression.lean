/-
# Rendering.Expression -- what a piece of compiled text prints

An expression is a constant or a name, followed by steps into the value: `.name`
takes a field of a record, and `.2` an item of a list or a character of a text,
counted from zero.  A name stands for a field of the context.

A constant is a word such as `true`, a number with or without a minus sign, or a
quoted text; quoted texts side by side are one text.  An escape that means
nothing stands for itself, so every text in quotes is some text unless the number
of a character is malformed.

A name, field or item that does not exist has no value and prints nothing.
Without a value, only the names of functions (`Expression.functions`) and an
infinite number print something.
-/
import TagTemplate.Rendering.Numeral

namespace TagTemplate

set_option autoImplicit false

open Text

inductive Expression where
  | constant (v : Value)
  | infinite (negative : Bool)
  | lookup (name : Text)
  | field (e : Expression) (name : Text)
  | item (e : Expression) (index : Nat)
  deriving Repr

namespace Expression

/-! ## Words -/

/-- The white space between the words of an expression or statement. -/
def isGap (c : Char) : Bool := c == ' ' || c == '\t' || c == '\n' || c == '\r' || c == '\x0c'

def skip (t : Text) : Text := t.dropWhile isGap

def isNameChar (c : Char) : Bool := c.isAlphanum || c == '_'

def name? (t : Text) : Option (Text × Text) :=
  if startsWith Numeral.isNameStart t then some (t.takeWhile isNameChar, t.dropWhile isNameChar)
  else none

/-! ## Quoted texts -/

/-- The number that `count` hexadecimal digits write, and the text after them; a plus sign may stand
in the place of the first. -/
def number? (count : Nat) : Text → Option (Nat × Text)
  | '+' :: t => if count < 2 then none else hexNumber? 0 (count - 1) t
  | t => hexNumber? 0 count t

def isOctal (c : Char) : Bool := '0' ≤ c && c ≤ '7'

/-- The character that up to three octal digits write, and the text after them. -/
def octalEscape? (t : Text) : Option (Char × Text) :=
  let digits := (t.take 3).takeWhile isOctal
  (numberIn? 8 digits).map fun n => (Char.ofNat n, t.drop digits.length)

def escape? (t : Text) : Option (Text × Text) :=
  match t with
  | [] => none
  | c :: rest =>
    if c = 'u' then (Quoted.unicodeEscape? (number? 4) rest).map fun p => ([p.1], p.2)
    else if c = 'x' then (number? 2 rest).map fun p => ([Char.ofNat p.1], p.2)
    else
      match octalEscape? t with
      | some (d, rest) => some ([d], rest)
      | none =>
        match if c = '\x27' then some c else Quoted.shortEscape? c with
        | some d => some ([d], rest)
        | none => some (['\\', c], rest)

/-- Whether a character is a quotation mark, which one is as good as the other. -/
def isQuote (c : Char) : Bool := c == '"' || c == '\x27'

/-- The quoted text at the start of a text, in quotes of either kind, and the text after it. -/
def quoted? : Text → Option (Text × Text)
  | [] => none
  | c :: t => if isQuote c then Quoted.body? escape? c (fun _ => true) t else none

/-- The quoted texts at the start of a text, put together, and the text after them; at most `count`. -/
def quotedTexts? : Nat → Text → Option (Text × Text)
  | 0, _ => none
  | count + 1, t => do
    let (s, t) ← quoted? t
    if startsWith isQuote (skip t) then (quotedTexts? count (skip t)).map fun p => (s ++ p.1, p.2)
    else return (s, t)

/-! ## Reading -/

def constant? (name : Text) : Option Value :=
  if name = "true".toList ∨ name = "True".toList then some (.bool true)
  else if name = "false".toList ∨ name = "False".toList then some (.bool false)
  else if name = "none".toList ∨ name = "None".toList then some .null
  else none

/-- What a name alone stands for.  `not` is an operator and no name. -/
def ofName? (name : Text) : Option Expression :=
  if name = "not".toList then none else some ((constant? name).elim (.lookup name) .constant)

/-- The greatest whole number that may have a minus sign. -/
def maxNegated : Nat := 0x80000000000000000000000000000000

/-- The number that a numeral with or without a minus sign stands for. -/
def ofNumeral? (negative : Bool) : Numeral → Option Expression
  | .whole n =>
    if !negative then some (.constant (.int n))
    else if n ≤ maxNegated then some (.constant (.int (-n)))
    else none
  | .fraction x => some (.constant (.float { x with negative := negative }))
  | .infinite => some (.infinite negative)

/-- A numeral with or without a minus sign before it, and the text after it. -/
def signed? (negative : Bool) (t : Text) : Option (Expression × Text) :=
  (Numeral.read? t).bind fun p => (ofNumeral? negative p.1).map (·, p.2)

def atom? (t : Text) : Option (Expression × Text) :=
  if startsWith Char.isDigit t then signed? false t
  else if startsWith (· == '-') t then signed? true (skip (t.drop 1))
  else if startsWith isQuote t then
    (quotedTexts? t.length t).map fun p => (.constant (.text p.1), p.2)
  else (name? t).bind fun p => (ofName? p.1).map (·, p.2)

def step? (e : Expression) (t : Text) : Option (Expression × Text) :=
  match name? t, Numeral.read? t with
  | some (name, rest), _ => some (.field e name, rest)
  | none, some (.whole index, rest) => some (.item e index, rest)
  | none, _ => none

/-- An expression and all the steps that follow, at most `count` of them, and the text after them and
the white space there. -/
def steps? : Nat → Expression → Text → Option (Expression × Text)
  | count, e, t =>
    match skip t, count with
    | '.' :: _, 0 => none
    | '.' :: t, count + 1 => do
      let (e, t) ← step? e (skip t)
      steps? count e t
    | t, _ => some (e, t)

/-- The expression at the start of a text, and the text after it and the white space there. -/
def read? (t : Text) : Option (Expression × Text) := do
  let (e, t) ← atom? (skip t)
  steps? t.length e t

/-! ## Value -/

def value? (context : Value) : Expression → Option Value
  | .constant v => some v
  | .infinite _ => none
  | .lookup name => context.field? name
  | .field e name => (value? context e).bind (Value.field? name)
  | .item e index => (value? context e).bind (Value.item? index)

def functions : List Text := ["range".toList, "dict".toList, "debug".toList, "namespace".toList]

def isFunction : Expression → Bool
  | .lookup name => functions.contains name
  | _ => false

def unknownText : Expression → Text
  | .lookup name =>
    if functions.contains name then "minijinja::functions::builtins::".toList ++ name else []
  | .infinite negative => if negative then "-inf".toList else "inf".toList
  | _ => []

def shown (context : Value) (e : Expression) : Text :=
  match e.value? context with
  | some v => v.shown
  | none => e.unknownText

/-- The templates that an expression names, to be tried in this order; none stands for what is no
name.  A list names its items, a record its fields, and a function nothing. -/
def templates (context : Value) (e : Expression) : List (Option Text) :=
  match e.value? context with
  | some (.list items) => items.map Value.text?
  | some (.record fields) => fields.map fun f => some f.1
  | some v => [v.text?]
  | none => if e.isFunction then [] else [none]

end Expression

end TagTemplate
