/-
# Toml.Table -- tables, and how keys and headers extend them

A key is given a value once.  Tables differ in how they came about, because that
decides how they may be extended (`Origin`):

* a table with a header of its own takes the keys below that header, and no other
  header opens it again;
* a table that the header of a table below it implied may still be opened by a
  header, or be reached by dotted keys; then it counts as made by them;
* a table that dotted keys made takes further dotted keys, and headers of tables
  below it, but none of its own;
* an inline table is complete as it stands.
-/
import TagTemplate.Text

namespace TagTemplate.Toml

set_option autoImplicit false

/-- How a table came about. -/
inductive Origin where
  /-- Opened by a header of its own. -/
  | header
  /-- Implied by the header of a table below it. -/
  | implied
  /-- Made by dotted keys. -/
  | dotted
  /-- Written inline. -/
  | inline
  deriving DecidableEq, Repr

namespace Origin

def takesKeys : Origin → Bool
  | .implied | .dotted => true
  | .header | .inline => false

end Origin

/-- A value, or a table of values by key. -/
inductive Item where
  | text (t : Text)
  | bool (b : Bool)
  /-- An integer of any size. -/
  | int (i : Int)
  | list (items : List Item)
  | table (origin : Origin) (fields : List (Text × Item))
  deriving Repr, Inhabited

/-- The items of a table by key, in the order they came. -/
abbrev Fields := List (Text × Item)

namespace Item

def minInt : Int := -0x80000000000000000000000000000000

def maxInt : Int := 0xFFFFFFFFFFFFFFFFFFFFFFFFFFFFFFFF

mutual

def isBounded : Item → Bool
  | .int i => minInt ≤ i && i ≤ maxInt
  | .list items => areBounded items
  | .table _ fields => fieldsBounded fields
  | .text _ | .bool _ => true

def areBounded : List Item → Bool
  | [] => true
  | i :: is => isBounded i && areBounded is

/-- Whether the integers of the items of a table can be taken as values. -/
def fieldsBounded : List (Text × Item) → Bool
  | [] => true
  | (_, i) :: fs => isBounded i && fieldsBounded fs

end

end Item

namespace Fields

def get? (fs : Fields) (key : Text) : Option Item := (fs.find? fun f => f.1 == key).map (·.2)

def replace (fs : Fields) (key : Text) (item : Item) : Fields :=
  fs.map fun f => if f.1 = key then (key, item) else f

def assign (value : Item) : List Text → Fields → Option Fields
  | [], _ => none
  | [key], fs => if (fs.get? key).isSome then none else some (fs ++ [(key, value)])
  | key :: keys, fs =>
    match fs.get? key with
    | none => (assign value keys []).map fun sub => fs ++ [(key, .table .dotted sub)]
    | some (.table origin sub) =>
      if origin.takesKeys then
        (assign value keys sub).map fun sub => fs.replace key (.table .dotted sub)
      else none
    | some _ => none

def openTable : List Text → Fields → Option Fields
  | [], _ => none
  | [key], fs =>
    match fs.get? key with
    | none => some (fs ++ [(key, .table .header [])])
    | some (.table .implied sub) => some (fs.replace key (.table .header sub))
    | some _ => none
  | key :: keys, fs =>
    match fs.get? key with
    | none => (openTable keys []).map fun sub => fs ++ [(key, .table .implied sub)]
    | some (.table .inline _) => none
    | some (.table origin sub) => (openTable keys sub).map fun sub => fs.replace key (.table origin sub)
    | some _ => none

/-- Change the table at the end of a path of keys. -/
def modifyAt (f : Fields → Option Fields) : List Text → Fields → Option Fields
  | [], fs => f fs
  | key :: keys, fs =>
    match fs.get? key with
    | some (.table origin sub) => (modifyAt f keys sub).map fun sub => fs.replace key (.table origin sub)
    | _ => none

end Fields

end TagTemplate.Toml
