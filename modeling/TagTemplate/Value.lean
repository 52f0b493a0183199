/-
# Value -- the data a template is rendered against

A value is what a JSON document holds.  `Value.parse?` reads one document with
white space around it and nothing else; arrays and objects may be nested
`Value.maxDepth` deep.  The fields of a record are sorted by name; of two with
one name the later one counts (`Value.setField`).

A number without point and exponent is an integer if it fits into 64 bits, with
or without a sign.  Every other number is a binary64 number, computed from the
leading digits that fit into 64 bits and a power of ten (`Value.Scaled`); one too
great for that makes the document malformed.
-/
import TagTemplate.Binary64
import TagTemplate.Text.Quoted

namespace TagTemplate

set_option autoImplicit false

open Text

inductive Value where
  | null
  | bool (b : Bool)
  | int (i : Int)
  | float (x : Binary64)
  | text (t : Text)
  | list (items : List Value)
  | record (fields : List (Text × Value))
  deriving Repr, Inhabited

namespace Value

def field? (name : Text) : Value → Option Value
  | .record fields => (fields.find? fun f => f.1 == name).map (·.2)
  | _ => none

/-- Give a field its value, at its place in the order of names. -/
def setField (name : Text) (v : Value) : List (Text × Value) → List (Text × Value)
  | [] => [(name, v)]
  | f :: fs =>
    if name = f.1 then (name, v) :: fs
    else if name < f.1 then (name, v) :: f :: fs
    else f :: setField name v fs

def ofFields (fields : List (Text × Value)) : Value :=
  .record (fields.foldl (fun fs f => setField f.1 f.2 fs) [])

/-- The item of a list, or the character of a text, counted from zero. -/
def item? (index : Nat) : Value → Option Value
  | .list items => items[index]?
  | .text t => t[index]?.map fun c => .text [c]
  | _ => none

def text? : Value → Option Text
  | .text t => some t
  | _ => none

/-! ## Showing -/

mutual

/-- A value inside another one: texts stand in quotes, and numbers far from one have an exponent. -/
def showNested : Value → Text
  | .text t => Quoted.shown t
  | .null => "None".toList
  | .bool b => if b then "True".toList else "False".toList
  | .int i => if i < 0 then '-' :: decimal i.natAbs else decimal i.natAbs
  | .float x => x.shownNested
  | .list items => '[' :: joinWith ", ".toList (showItems items) ++ [']']
  | .record fields => '{' :: joinWith ", ".toList (showFields fields) ++ ['}']

def showItems : List Value → List Text
  | [] => []
  | v :: vs => showNested v :: showItems vs

def showFields : List (Text × Value) → List Text
  | [] => []
  | (name, v) :: fs => (Quoted.shown name ++ ": ".toList ++ showNested v) :: showFields fs

end

def shown : Value → Text
  | .text t => t
  | .float x => x.shown
  | v => showNested v

/-! ## Reading -/

def isJsonSpace (c : Char) : Bool := c == ' ' || c == '\t' || c == '\n' || c == '\r'

def skip (t : Text) : Text := t.dropWhile isJsonSpace

def digits? (t : Text) : Option (Text × Text) :=
  let ds := t.takeWhile Char.isDigit
  if ds.isEmpty then none else some (ds, t.dropWhile Char.isDigit)

/-- The digits after the point of a number; none without a point. -/
def fraction? : Text → Option (Text × Text)
  | '.' :: t => digits? t
  | t => some ([], t)

def ofDigits (ds : Text) : Nat := ds.foldl (fun n d => n * 10 + (d.toNat - '0'.toNat)) 0

def exponent? (t : Text) : Option (Option Int × Text) :=
  match t with
  | c :: u =>
    if c = 'e' ∨ c = 'E' then
      match u with
      | '+' :: v => (digits? v).map fun p => (some (ofDigits p.1 : Int), p.2)
      | '-' :: v => (digits? v).map fun p => (some (-(ofDigits p.1 : Int)), p.2)
      | v => (digits? v).map fun p => (some (ofDigits p.1 : Int), p.2)
    else some (none, t)
  | [] => some (none, t)

/-- A whole number times a power of ten. -/
structure Scaled where
  significand : Nat := 0
  exponent : Int := 0
  deriving DecidableEq, Repr

namespace Scaled

/-- The significand with one more digit, if that fits into 64 bits. -/
def extend? (s : Scaled) (d : Char) : Option Nat :=
  let n := s.significand * 10 + (d.toNat - '0'.toNat)
  if n ≤ 0xFFFFFFFFFFFFFFFF then some n else none

/-- Add digits before the point; those that do not fit count as zeros. -/
def addWhole (s : Scaled) : Text → Scaled
  | [] => s
  | d :: ds =>
    match s.extend? d with
    | some n => addWhole { s with significand := n } ds
    | none => { s with exponent := s.exponent + (ds.length + 1 : Nat) }

/-- Add digits after the point; from the first that does not fit on they are left out. -/
def addFraction (s : Scaled) : Text → Scaled
  | [] => s
  | d :: ds =>
    match s.extend? d with
    | some n => addFraction ⟨n, s.exponent - 1⟩ ds
    | none => s

end Scaled

/-- The value of a number, given by its sign, its digits before and after the point, and its
exponent.  Zero with a sign is no integer. -/
def ofNumber? (negative : Bool) (whole fraction : Text) (power : Option Int) : Option Value :=
  let n := ofDigits whole
  if fraction = [] ∧ power = none ∧ !negative ∧ n ≤ 0xFFFFFFFFFFFFFFFF then some (.int n)
  else if fraction = [] ∧ power = none ∧ negative ∧ 0 < n ∧ n ≤ 0x8000000000000000 then
    some (.int (-n))
  else
    let s := (Scaled.addWhole {} whole).addFraction fraction
    (Binary64.ofDecimal? negative s.significand (s.exponent + power.getD 0)).map .float

def number? (t : Text) : Option (Value × Text) := do
  let (negative, t) := match t with
    | '-' :: u => (true, u)
    | u => (false, u)
  let (whole, t) ← digits? t
  if 1 < whole.length ∧ whole.head? = some '0' then none
  else
    let (fraction, t) ← fraction? t
    let (power, t) ← exponent? t
    return (← ofNumber? negative whole fraction power, t)

def string? (t : Text) : Option (Text × Text) := Quoted.read? (fun c => 0x20 ≤ c.toNat) t

/-- The items of an array after the first bracket, read by `item?`, at most `count` of them. -/
def items? {α : Type} (item? : Text → Option (α × Text)) (close : Char) :
    Nat → Text → Option (List α × Text)
  | 0, _ => none
  | count + 1, t => do
    let (v, t) ← item? t
    match skip t with
    | c :: t =>
      if c = close then return ([v], t)
      else if c = ',' then
        let (vs, t) ← items? item? close count t
        return (v :: vs, t)
      else none
    | [] => none

def bracketed? {α : Type} (item? : Text → Option (α × Text)) (close : Char) (t : Text) :
    Option (List α × Text) :=
  match skip t with
  | c :: u => if c = close then some ([], u) else items? item? close (t.length + 1) t
  | [] => none

/-- A field of an object, its value read by `value?`. -/
def fieldOf? (value? : Text → Option (Value × Text)) (t : Text) : Option ((Text × Value) × Text) := do
  let (name, t) ← string? (skip t)
  let t ← dropLead? [':'] (skip t)
  let (v, t) ← value? t
  return ((name, v), t)

/-- The value at this place, and the text after it; arrays and objects at most `depth` deep. -/
def value? : Nat → Text → Option (Value × Text)
  | depth, t =>
    match skip t with
    | '{' :: u =>
      match depth with
      | 0 => none
      | depth + 1 => (bracketed? (fieldOf? (value? depth)) '}' u).map fun p => (ofFields p.1, p.2)
    | '[' :: u =>
      match depth with
      | 0 => none
      | depth + 1 => (bracketed? (value? depth) ']' u).map fun p => (.list p.1, p.2)
    | '"' :: u => (string? ('"' :: u)).map fun p => (.text p.1, p.2)
    | t =>
      match dropLead? "null".toList t, dropLead? "true".toList t, dropLead? "false".toList t with
      | some rest, _, _ => some (.null, rest)
      | _, some rest, _ => some (.bool true, rest)
      | _, _, some rest => some (.bool false, rest)
      | _, _, _ => number? t

/-- How deep arrays and objects may be nested. -/
def maxDepth : Nat := 127

def parse? (t : Text) : Option Value :=
  match value? maxDepth t with
  | some (v, rest) => if (skip rest).isEmpty then some v else none
  | none => none

end Value

end TagTemplate
