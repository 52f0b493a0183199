/-
# Handler -- what tags mean

A handler turns a tag into text: a block tag from its attributes and its content,
already compiled, a value tag from its attributes and their raw text.  Handlers
may keep a state of any type `σ` and change it at every call; a pure handler
leaves it alone.

A registry holds handlers by tag name, a later one replacing an earlier one, and
at most one fallback each for blocks and values without a handler.
-/
import TagTemplate.Attributes
import TagTemplate.Text.Quoted

namespace TagTemplate

set_option autoImplicit false

open Text

/-- A handler of one tag, given its attributes and its content or their raw text. -/
abbrev Handler (σ : Type) := Attributes → Text → StateM σ Text

/-- A handler of any tag, given its name first. -/
abbrev Fallback (σ : Type) := Text → Attributes → Text → StateM σ Text

/-- The handlers of a template language. -/
structure Registry (σ : Type) where
  blocks : List (Text × Handler σ) := []
  values : List (Text × Handler σ) := []
  unknownBlock : Option (Fallback σ) := none
  unknownValue : Option (Fallback σ) := none

namespace Registry

variable {σ : Type}

def insertHandler (name : Text) (h : Handler σ) : List (Text × Handler σ) → List (Text × Handler σ)
  | [] => [(name, h)]
  | p :: ps =>
    if name = p.1 then (name, h) :: ps
    else if name < p.1 then (name, h) :: p :: ps
    else p :: insertHandler name h ps

def find? (name : Text) (hs : List (Text × Handler σ)) : Option (Handler σ) :=
  (hs.find? fun p => p.1 == name).map (·.2)

def registerBlock (r : Registry σ) (name : Text) (h : Handler σ) : Registry σ :=
  { r with blocks := insertHandler name h r.blocks }

def registerValue (r : Registry σ) (name : Text) (h : Handler σ) : Registry σ :=
  { r with values := insertHandler name h r.values }

def hasBlock (r : Registry σ) (name : Text) : Bool := (find? name r.blocks).isSome

def hasValue (r : Registry σ) (name : Text) : Bool := (find? name r.values).isSome

/-- What a block tag is turned into by: its handler, or else the fallback. -/
def blockHandler? (r : Registry σ) (name : Text) : Option (Handler σ) :=
  (find? name r.blocks).or (r.unknownBlock.map (· name))

/-- What a value tag is turned into by: its handler, or else the fallback. -/
def valueHandler? (r : Registry σ) (name : Text) : Option (Handler σ) :=
  (find? name r.values).or (r.unknownValue.map (· name))

/-- The registry on one line: the names it knows, and which fallbacks there are. -/
def summary (r : Registry σ) : Text :=
  let list (ts : List Text) := '[' :: joinWith ", ".toList (ts.map Quoted.shown) ++ [']']
  let bool (b : Bool) := if b then "true".toList else "false".toList
  "HandlerRegistry \x7b blocks: ".toList ++ list (r.blocks.map (·.1))
    ++ ", values: ".toList ++ list (r.values.map (·.1))
    ++ ", unknown_block: ".toList ++ bool r.unknownBlock.isSome
    ++ ", unknown_value: ".toList ++ bool r.unknownValue.isSome ++ " \x7d".toList

end Registry

/-! ## The handler every engine has -/

/-- The value tag that pulls in another template when the compiled text is rendered. -/
def includeTag : Text := "include".toList

/-- The statement that includes the template named by the attribute `src`. -/
def includeStatement (a : Attributes) : Text :=
  match a.get? "src".toList with
  | some src => "\x7b% include ".toList ++ Quoted.json src ++ " %\x7d".toList
  | none => []

/-- The handler of `include` tags. -/
def includeHandler {σ : Type} : Handler σ := fun a _ => pure (includeStatement a)

end TagTemplate
