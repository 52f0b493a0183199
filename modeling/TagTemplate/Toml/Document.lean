/-
# Toml.Document -- documents of tables, keys and values

A document is read line by line into one table (`parse?`).  The language is TOML
without dates, fractions, multi-line strings and arrays of tables.

Within an array and within an inline table, comments and line breaks may stand
wherever blanks may, except inside a key.
-/
import TagTemplate.Toml.Word

namespace TagTemplate.Toml

set_option autoImplicit false

open Text

/-! ## Values -/

/-- The items of an array after its bracket, read by `value?`; at most `count` of them. -/
def items? (value? : Text → Option (Item × Text)) : Nat → Text → Option (List Item × Text)
  | 0, _ => none
  | count + 1, t =>
    match skipGap t with
    | ']' :: rest => some ([], rest)
    | t => do
      let (item, t) ← value? t
      match skipGap t with
      | ',' :: t =>
        let (items, t) ← items? value? count t
        return (item :: items, t)
      | ']' :: t => return ([item], t)
      | _ => none

/-- A key with its value, read by `value?`; `gap` drops what may stand around the sign between them. -/
def pair? (gap : Text → Text) (value? : Text → Option (Item × Text)) (t : Text) :
    Option ((List Text × Item) × Text) := do
  let (keys, t) ← key? maxParts t
  let t ← dropLead? ['='] (gap t)
  let (item, t) ← value? (gap t)
  return ((keys, item), t)

/-- The pairs of an inline table after its brace, added to the ones before; at most `count`. -/
def pairs? (value? : Text → Option (Item × Text)) : Nat → Fields → Text → Option (Fields × Text)
  | 0, _, _ => none
  | count + 1, fs, t =>
    match skipGap t with
    | '}' :: rest => some (fs, rest)
    | t => do
      let ((keys, item), t) ← pair? skipGap value? t
      let fs ← fs.assign item keys
      match skipGap t with
      | ',' :: t => pairs? value? count fs t
      | '}' :: t => return (fs, t)
      | _ => none

/-- The value at this place, and what follows it; arrays and inline tables at most `depth` deep. -/
def value? : Nat → Text → Option (Item × Text)
  | depth, t =>
    match t, depth with
    | '[' :: u, depth + 1 => (items? (value? depth) (u.length + 1) u).map fun p => (.list p.1, p.2)
    | '{' :: u, depth + 1 =>
      (pairs? (value? depth) (u.length + 1) [] u).map fun p => (.table .inline p.1, p.2)
    | t, _ =>
      match string? t with
      | some (s, rest) => some (.text s, rest)
      | none => word? t

/-- How deep arrays and inline tables may be nested. -/
def maxDepth : Nat := 80

/-! ## Documents -/

def header? (t : Text) : Option (List Text × Text) := do
  let (keys, t) ← key? maxParts t
  let t ← dropLead? [']'] (skip t)
  return (keys, t)

/-- Read the lines of a document below the table that was opened last; at most `count` of them. -/
def lines? : Nat → List Text → Fields → Text → Option Fields
  | 0, _, _, _ => none
  | count + 1, here, fs, t =>
    match skip t with
    | [] => some fs
    | '[' :: t => do
      let (keys, t) ← header? t
      let fs ← fs.openTable keys
      lines? count keys fs (← endOfLine? t)
    | t =>
      match endOfLine? t with
      | some rest => lines? count here fs rest
      | none => do
        let ((keys, item), t) ← pair? skip (value? maxDepth) t
        let fs ← fs.modifyAt (Fields.assign item keys) here
        lines? count here fs (← endOfLine? t)

def parse? (t : Text) : Option Fields :=
  let t := (dropLead? ['\uFEFF'] t).getD t
  lines? (t.length + 2) [] [] t

end TagTemplate.Toml
