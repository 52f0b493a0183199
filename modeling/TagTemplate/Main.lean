/-
# Main -- the program

The directories that a command line and the configuration of its project name
are read into a file system, the command line is carried out on it, and what it
changed is written back.
-/
import TagTemplate.CommandLine.Help
import TagTemplate.CommandLine.Report

namespace TagTemplate.Program

set_option autoImplicit false

open CommandLine

/-! ## Reading and writing -/

def locate (path : String) : Location :=
  (Path.segments path.toList).filter fun s => !s.isEmpty && s != ['.']

def written (l : Location) : String := String.ofList l.written

def above (l : Location) : List Location := (List.range (l.length + 1)).map l.take

def addAbove (fs : FileSystem) (l : Location) : FileSystem :=
  (above l).dropLast.foldl
    (fun fs d => if (fs.get? d).isSome then fs else fs.set d (.directory FileSystem.newDirectoryMode 0)) fs

/-- Read a file or a directory and everything in it. -/
partial def readEntry (fs : FileSystem) (entry : IO.FS.DirEntry) : IO FileSystem := do
  let l := locate (toString entry.path)
  let data ← entry.path.metadata
  let time := data.modified.sec.toNat * 1000000000 + data.modified.nsec.toNat
  let fs := { addAbove fs l with now := max fs.now time }
  match data.type with
  | .dir =>
    let mut fs := fs.set l (.directory FileSystem.newDirectoryMode time)
    for inner in ← entry.path.readDir do fs ← readEntry fs inner
    return fs
  | _ =>
    let bytes ← IO.FS.readBinFile entry.path
    return fs.set l (.file (Contents.ofBytes bytes.toList) FileSystem.newFileMode time)

def readPath (fs : FileSystem) (path : Text) : IO FileSystem := do
  try
    let real ← IO.FS.realPath (String.ofList path)
    readEntry fs ⟨real, ""⟩
  catch _ => return fs

/-- Write the entries of a file system that differ from those of an earlier one. -/
def writeBack (before after : FileSystem) : IO Unit := do
  for (l, entry) in after.entries do
    if before.get? l != some entry then
      match entry with
      | .directory .. => IO.FS.createDirAll (written l)
      | .file (.text t) .. =>
        let temporary := written l ++ ".tmp"
        IO.FS.createDirAll (written l.dropLast)
        IO.FS.writeFile temporary (String.ofList t)
        IO.FS.rename temporary (written l)
      | .file (.binary _) .. => pure ()

/-! ## Carrying out -/

def firstPaths (a : Arguments) (root : Text) : List Text :=
  let data := match a.command with
    | some (.render _ (some path)) => [path]
    | _ => []
  Config.candidates.map (Path.join root) ++ data

/-- The directories that the configuration and the command line name. -/
def configuredPaths (a : Arguments) (files : FileSystem) (root : Text) : List Text :=
  match Config.load files root with
  | .ok c =>
    let c := configured a (c.getD {})
    c.cachePath root :: c.templateDirs root
  | .error _ => []

def execute (a : Arguments) (workDir : String) (colorAllowed : Bool) : IO UInt32 := do
  let color := colored a colorAllowed
  let start := { FileSystem.empty with workDir := locate workDir }
  let root := a.path.getD workDir.toList
  let files ← (firstPaths a root).foldlM readPath (addAbove start (start.workDir ++ [[]]))
  let files ← (configuredPaths a files root).foldlM readPath files
  let (outcome, after) := run a color files
  writeBack files after
  for n in outcome.notices do IO.eprintln (String.ofList (n.full color))
  IO.print (String.ofList outcome.stdout)
  return UInt32.ofNat outcome.exit

end TagTemplate.Program

def main (words : List String) : IO UInt32 := do
  match TagTemplate.CommandLine.Arguments.parse (words.map String.toList) with
  | .error halt =>
    if !halt.message.isEmpty then IO.eprintln ("error: " ++ String.ofList halt.message)
    IO.print (String.ofList halt.stdout)
    return UInt32.ofNat halt.exit
  | .ok a =>
    let colorAllowed := (← IO.getEnv "NO_COLOR").isNone
    let workDir ← IO.FS.realPath "."
    TagTemplate.Program.execute a workDir.toString colorAllowed
