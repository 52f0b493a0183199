/-
# Engine.Render -- compiled text is rendered against a context

A renderer asks for templates by name (`Script`).  The one that is rendered goes by its own
name; another one is compiled through the engine when it is first asked for, and kept for
the rest of that rendering (`Loaded`).  A template that does not exist, or that extends one
which does not, is missing; any other error on the way is for the renderer to deal with.
Whatever it fails with is an error of rendering.

Requests take any `Renderer`.  Unless one is given, compiled text is in the language of
lookups and includes (`Piece.language`).
-/
import TagTemplate.Engine
import TagTemplate.Rendering

namespace TagTemplate.Engine

set_option autoImplicit false

variable {σ α : Type}

abbrev Loaded := List (Text × Text)

def answer (e : Engine σ) (name : Text) : Action σ Loading :=
  tryCatch (Loading.found <$> e.getCompiled name) fun
    | .templateNotFound _ => return .missing
    | _ => return .failed

/-- Ask for the template of a name, unless it was read before. -/
def load (e : Engine σ) (loaded : Loaded) (name : Text) : Action σ (Loading × Loaded) :=
  match loaded.find? fun p => p.1 == name with
  | some p => return (.found p.2, loaded)
  | none => do
    match ← e.answer name with
    | .found compiled => return (.found compiled, (name, compiled) :: loaded)
    | other => return (other, loaded)

/-- Carry out a script among the templates that were read before; the result says which were read in the end. -/
def play (e : Engine σ) (loaded : Loaded) : Script α → Action σ (α × Loaded)
  | .done a => return (a, loaded)
  | .fails => throw .render
  | .load name next => do
    let (answer, loaded) ← e.load loaded name
    e.play loaded (next answer)

def renderCompiled (e : Engine σ) (name compiled : Text) (context : Value)
    (R : Renderer := Piece.language.renderer) : Action σ Text :=
  Prod.fst <$> e.play [(name, compiled)] (R name compiled context)

def render (e : Engine σ) (name : Text) (context : Value) (R : Renderer := Piece.language.renderer) :
    Action σ Text := do
  e.renderCompiled name (← e.getCompiled name) context R

def sourceName : Text := "__source__".toList

def renderSource (e : Engine σ) (source : Text) (context : Value) (R : Renderer := Piece.language.renderer) :
    Action σ Text := do
  e.renderCompiled sourceName (← e.compileSource source).artifact context R

end TagTemplate.Engine
