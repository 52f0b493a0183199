/-
# Chain -- a template and the templates it extends

A template that extends another one is compiled together with it: every file of
the chain is built into one tree and one block stack, from the template that was
asked for to the one that extends nothing.  That last one drives the output; the
others only contribute bodies for its blocks.

`__parent__` stands for the template of the same name further down the search
path.  A target that is not found, or a file that is already part of the chain,
ends it with an error.
-/
import TagTemplate.Error
import TagTemplate.SearchPath
import TagTemplate.Source.Prepare
import TagTemplate.Tree.Build

namespace TagTemplate

set_option autoImplicit false

/-- The target that stands for the same name further down the search path. -/
def parentSentinel : Text := "__parent__".toList

/-- Where templates are looked for, and how their sources are prepared. -/
structure Settings where
  searchPath : SearchPath := {}
  options : Source.Options := {}
  deriving DecidableEq, Repr

/-- The files of an extends chain, built into one tree. -/
structure Chain where
  tree : Tree := {}
  blocks : BlockStack := {}
  /-- The root of the last file. -/
  root : NodeId := 0
  /-- The files that extend another one, in visiting order. -/
  visited : List Location := []
  diagnostics : List Diagnostic := []

/-- A result that may fail, and the events on the way to it. -/
abbrev Logged (α : Type) := ExceptT Error (StateM (List Event)) α

namespace Logged

def note (es : List Event) : Logged Unit := modify (· ++ es)

/-- A file operation; its error is an input or output error. -/
def ofFile {α : Type} : Except FileError α → Logged α
  | .ok a => return a
  | .error e => throw (.io e)

end Logged

namespace Chain

def lookup (s : Settings) (fs : FileSystem) (name : Text) : Logged (Option Template) := do
  let found := s.searchPath.find? fs name
  Logged.note (SearchPath.lookupEvents name found)
  return found

/-- Look up the template that a file extends; `origin` is the file, unless it is text in memory. -/
def lookupTarget (s : Settings) (fs : FileSystem) (origin : Option Template) (target : Text) :
    Logged (Option Template) :=
  if target = parentSentinel then
    match origin with
    | none => return none
    | some t => do
      Logged.note (s.searchPath.lookupAfterEvents fs t.dir t.name)
      return s.searchPath.findAfter? fs t.dir t.name
  else lookup s fs target

/-- Build one file onto a chain; its diagnostics name the file. -/
def buildFile (s : Settings) (c : Chain) (origin : Option Template) (source : Text) : Builder × Chain :=
  let text := Source.prepare s.options source
  let b := Tree.build (Token.tokenize text) text c.tree c.blocks
  let found := b.diagnostics.map fun d => { d with file := origin.map (·.file) }
  (b, { c with tree := b.tree, blocks := b.blocks, root := b.root, diagnostics := c.diagnostics ++ found })

/-- Follow a chain from a source on, through at most `files` further files. -/
def follow (s : Settings) (fs : FileSystem) : Nat → Chain → Option Template → Text → Logged Chain
  | files, c, origin, source => do
    let (b, c) := buildFile s c origin source
    Logged.note b.events
    match b.extendsTarget with
    | none => return c
    | some target =>
      match ← lookupTarget s fs origin target with
      | none => throw (.templateNotFound target)
      | some next =>
        let visited := c.visited ++ (origin.map (·.file)).toList
        if visited.contains next.file then throw (.extendsCycle next.file)
        Logged.note [.followingExtends next.file]
        let source ← Logged.ofFile (fs.readAt next.file)
        match files with
        | 0 => throw (.extendsCycle next.file)
        | files + 1 => follow s fs files { c with visited } (some next) source

/-- The chain of a source.  No file comes twice, so it has at most as many as there are entries. -/
def ofSource (s : Settings) (fs : FileSystem) (origin : Option Template) (source : Text) : Logged Chain :=
  follow s fs (fs.entries.length + 1) {} origin source

def ofTemplate (s : Settings) (fs : FileSystem) (t : Template) : Logged Chain := do
  let source ← Logged.ofFile (fs.readAt t.file)
  ofSource s fs (some t) source

end Chain

end TagTemplate
