/-
# SearchPath -- where templates are looked for

A search path is a list of directories, each of them once.  Directories are put
in as written paths and kept as locations; a path that names no directory is
skipped (`directories`).  `append` leaves a directory where it already is,
`prepend` moves it to the front.

A template is looked up by name in each directory in turn (`find?`).  Only names
that stay below the directory are looked up at all.
-/
import TagTemplate.Event
import TagTemplate.FileSystem

namespace TagTemplate

set_option autoImplicit false

open Text

structure Template where
  /-- The name it was asked for by. -/
  name : Text
  /-- The directory of the search path it was found in. -/
  dir : Location
  /-- The file that holds it. -/
  file : Location
  deriving DecidableEq, Repr

/-- The directories that templates are looked for in, in order. -/
structure SearchPath where
  dirs : List Location := []
  deriving DecidableEq, Repr

namespace SearchPath

/-! ## Directories -/

def directories (fs : FileSystem) (paths : List Text) : List Location :=
  paths.filterMap fs.directory?

/-- Put a location at the end of a list unless it is in it. -/
def addOnce (ls : List Location) (l : Location) : List Location :=
  if ls.contains l then ls else ls ++ [l]

/-- Add directories at the end; those already present keep their place. -/
def append (sp : SearchPath) (fs : FileSystem) (paths : List Text) : SearchPath :=
  ⟨(directories fs paths).foldl addOnce sp.dirs⟩

/-- Add directories in front, in their order; those already present move there. -/
def prepend (sp : SearchPath) (fs : FileSystem) (paths : List Text) : SearchPath :=
  let front := (directories fs paths).foldl addOnce []
  ⟨front ++ sp.dirs.filter (!front.contains ·)⟩

def ofPaths (fs : FileSystem) (paths : List Text) : SearchPath := append {} fs paths

/-! ## Lookup -/

def inDirectory? (fs : FileSystem) (name : Text) (dir : Location) : Option Template :=
  if FileSystem.maxPath < size (Path.join dir.written name) then none
  else
    match fs.walk dir (Path.segments name) with
    | .ok file => if fs.isFileAt file then some ⟨name, dir, file⟩ else none
    | .error _ => none

def findIn? (fs : FileSystem) (name : Text) (dirs : List Location) : Option Template :=
  if Path.isContained name && !name.contains '\x00' then dirs.findSome? (inDirectory? fs name)
  else none

def lookupEvents (name : Text) (found : Option Template) : List Event :=
  if Path.isContained name then
    match found with
    | some t => [.resolvedTemplate name t.dir]
    | none => []
  else [.rejectedName name]

def find? (sp : SearchPath) (fs : FileSystem) (name : Text) : Option Template :=
  findIn? fs name sp.dirs

/-- The directories that come after one of the search path; none when it is not in it. -/
def after? (sp : SearchPath) (dir : Location) : Option (List Location) :=
  match sp.dirs.dropWhile (· != dir) with
  | [] => none
  | _ :: rest => some rest

def findAfter? (sp : SearchPath) (fs : FileSystem) (dir : Location) (name : Text) : Option Template :=
  if fs.isDirAt dir then (sp.after? dir).bind (findIn? fs name) else none

/-- What the log says about looking up a name after a directory. -/
def lookupAfterEvents (sp : SearchPath) (fs : FileSystem) (dir : Location) (name : Text) : List Event :=
  if fs.isDirAt dir && (sp.after? dir).isSome then lookupEvents name (sp.findAfter? fs dir name) else []

end SearchPath

end TagTemplate
