/-
# Config -- the configuration file of a project

A project may say in a file where its templates and its cache are and how
sources are prepared.  The file is the first of `Config.candidates` that exists.

Three sections are read: `templates`, `cache` and `host_snippets`.  Every
section and every entry may be left out; what is not known is passed over, as
long as its integers can be taken as values.  A section may also be written as an
array that holds its entries in order; what follows them is not looked at.
-/
import TagTemplate.Error
import TagTemplate.Source.Prepare
import TagTemplate.Toml.Document

namespace TagTemplate

set_option autoImplicit false

/-- What a project says about its templates. -/
structure Config where
  /-- The directories that templates are looked for in, relative to the project. -/
  paths : List Text := []
  /-- The directory of the cache, relative to the project. -/
  cacheDir : Option Text := none
  /-- Whether fresh artifacts are used. -/
  cacheEnabled : Bool := true
  options : Source.Options := {}
  deriving DecidableEq, Repr

namespace Config

/-- Where a configuration file may be, in order of precedence. -/
def candidates : List Text :=
  ["tagtpl.toml".toList, ".tagtpl.toml".toList, ".config/tagtpl.toml".toList]

def defaultCacheDir : Text := ".tagtpl/cache".toList

/-! ## Reading -/

/-- The entry of a section, by its name, or by its place when the section is an array. -/
def item? (place : Nat) (name : Text) : Toml.Item → Option Toml.Item
  | .table _ fields => Toml.Fields.get? fields name
  | .list items => items[place]?
  | _ => none

def isSection : Toml.Item → Bool
  | .table .. | .list _ => true
  | _ => false

/-- A section of a document; one that is left out is empty. -/
def section? (document : Toml.Fields) (name : Text) : Option Toml.Item :=
  match document.get? name with
  | none => some (.list [])
  | some item => if isSection item then some item else none

def sections : List Text := ["templates".toList, "cache".toList, "host_snippets".toList]

/-- Whether everything in a document that is looked at can be taken as a value. -/
def isReadable (document : Toml.Fields) : Bool :=
  document.all fun f =>
    match f.2 with
    | .list _ => sections.contains f.1 || f.2.isBounded
    | _ => f.2.isBounded

/-- The value of an entry; without the entry, the default. -/
def valueOr {α : Type} (default : α) (read : Toml.Item → Option α) : Option Toml.Item → Option α
  | none => some default
  | some item => read item

def asText? : Toml.Item → Option Text
  | .text t => some t
  | _ => none

def asBool? : Toml.Item → Option Bool
  | .bool b => some b
  | _ => none

def asTexts? : Toml.Item → Option (List Text)
  | .list items => items.mapM asText?
  | _ => none

def ofSections? (templates cache snippets : Toml.Item) : Option Config := do
  let paths ← valueOr [] asTexts? (item? 0 "paths".toList templates)
  let cacheDir ← valueOr none (fun i => (asText? i).map some) (item? 0 "dir".toList cache)
  let cacheEnabled ← valueOr true asBool? (item? 1 "enabled".toList cache)
  let strip ← valueOr false asBool? (item? 0 "strip".toList snippets)
  let pass ← valueOr true asBool? (item? 1 "passthrough_literals".toList snippets)
  return { paths, cacheDir, cacheEnabled, options := ⟨strip, pass⟩ }

def ofDocument? (document : Toml.Fields) : Option Config :=
  if isReadable document then do
    let templates ← section? document "templates".toList
    let cache ← section? document "cache".toList
    let snippets ← section? document "host_snippets".toList
    ofSections? templates cache snippets
  else none

def parse (t : Text) : Except Error Config :=
  match (Toml.parse? t).bind ofDocument? with
  | some c => .ok c
  | none => .error .config

def file? (fs : FileSystem) (root : Text) : Option Text :=
  (candidates.map (Path.join root)).find? fs.isFile

def load (fs : FileSystem) (root : Text) : Except Error (Option Config) :=
  match file? fs root with
  | none => .ok none
  | some path =>
    match fs.read path with
    | .error e => .error (.io e)
    | .ok t => (parse t).map some

/-! ## Paths -/

def templateDirs (c : Config) (root : Text) : List Text := c.paths.map (Path.join root)

def cachePath (c : Config) (root : Text) : Text := Path.join root (c.cacheDir.getD defaultCacheDir)

end Config

end TagTemplate
