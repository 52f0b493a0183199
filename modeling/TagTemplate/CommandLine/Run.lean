/-
# CommandLine.Run -- a command line is carried out

A command works on the files of a project and ends with an exit code, a text for
standard output and notices for standard error (`Outcome`).  The configuration of
the project is read first, and options of the command line replace what it says.

Tags without a handler are given a meaning here: a block stands for its content,
a value for the lookup of its name in the data.  `check` compiles every template
afresh and ends with 1 when any fault was found; errors end every command with 2.
-/
import TagTemplate.CommandLine.Arguments
import TagTemplate.Engine.Configured
import TagTemplate.Engine.Render

namespace TagTemplate.CommandLine

set_option autoImplicit false

open Text

/-! ## What is printed -/

/-- Whether output is colored: where it goes allows it, and no option forbids it. -/
def colored (a : Arguments) (allowed : Bool) : Bool := allowed && !a.noColor

/-- A text in a style, between the terminal codes that begin and end it. -/
def styled (color : Bool) (start stop : Text) (t : Text) : Text :=
  if color then "\x1b[".toList ++ start ++ 'm' :: t ++ "\x1b[".toList ++ stop ++ ['m'] else t

def red (color : Bool) : Text → Text := styled color "31".toList "39".toList

def green (color : Bool) : Text → Text := styled color "32".toList "39".toList

def bold (color : Bool) : Text → Text := styled color "1".toList "0".toList

/-- Something said on standard error. -/
inductive Notice where
  /-- A directory of the search path. -/
  | searching (dir : Location)
  | noCommand
  | failure (e : Error)
  | fault (d : Diagnostic)
  /-- The data file could not be read. -/
  | dataUnreadable (path : Text)
  /-- The data file holds no JSON document. -/
  | dataMalformed (path : Text)
  | faultCount (count : Nat)
  deriving DecidableEq, Repr

/-- A notice on one line; errors and faults by their code. -/
def Notice.line (color : Bool) : Notice → Text
  | .searching dir => "searching ".toList ++ dir.written
  | .noCommand => "No subcommand specified. Run `tagtpl --help` for usage.".toList
  | .failure e => e.code
  | .fault d => d.code
  | .dataUnreadable path =>
    red color "error:".toList ++ " failed to read data file `".toList ++ path ++ ['`']
  | .dataMalformed path =>
    red color "error:".toList ++ " failed to parse data file `".toList ++ path ++ ['`']
  | .faultCount count =>
    red color "error:".toList ++ ' ' :: decimal count ++ " structural error(s) found.".toList

structure Outcome where
  exit : Nat
  stdout : Text := []
  notices : List Notice := []
  deriving DecidableEq, Repr

/-! ## Carrying out -/

/-- What a command has done so far. -/
structure Progress where
  session : Session Unit
  stdout : Text := []
  notices : List Notice := []

/-- A command in progress; it may end early with a notice. -/
abbrev Job (α : Type) := ExceptT Notice (StateM Progress) α

namespace Job

def print (t : Text) : Job Unit := modify fun p => { p with stdout := p.stdout ++ t }

def say (n : Notice) : Job Unit := modify fun p => { p with notices := p.notices ++ [n] }

/-- Carry out a request; its error ends the command. -/
def request {α : Type} (a : Action Unit α) : Job α := do
  let p ← get
  let (result, session) := a.run.run p.session
  set { p with session }
  match result with
  | .ok x => return x
  | .error e => throw (.failure e)

end Job

/-- The lookup of a name in the data; a name that starts with a digit has none. -/
def contextLookup (tag : Text) : Text :=
  if startsWith Char.isDigit tag then [] else "\x7b\x7b ".toList ++ tag ++ " \x7d\x7d".toList

def withFallbacks (r : Registry Unit) : Registry Unit :=
  { r with
    unknownBlock := some fun _ _ content => pure content
    unknownValue := some fun tag _ _ => pure (contextLookup tag) }

/-- The configuration of a project, with the options of a command line in place of what it says. -/
def configured (a : Arguments) (c : Config) : Config :=
  let paths := if a.templateDirs.isEmpty then c.paths else a.templateDirs
  { paths := if paths.isEmpty then [['.']] else paths
    cacheDir := a.cacheDir.or c.cacheDir
    cacheEnabled := c.cacheEnabled && !a.noCache
    options := { c.options with stripSnippets := c.options.stripSnippets || a.stripSnippets } }

def buildEngine (a : Arguments) : Job (Engine Unit) := do
  let files := (← get).session.files
  let root := a.path.getD files.workDir.written
  let config ← Job.request (match Config.load files root with
    | .ok c => pure (c.getD {})
    | .error e => throw e)
  let e ← Job.request (Engine.ofConfig root (configured a config))
  let e := { e with registry := withFallbacks e.registry }
  if a.verbose then
    for dir in e.settings.searchPath.dirs do Job.say (.searching dir)
  return e

/-- The data of a file; without a file, none. -/
def readData (path : Option Text) : Job Value := do
  match path with
  | none => return .record []
  | some path =>
    match (← get).session.files.read path with
    | .error _ => throw (.dataUnreadable path)
    | .ok t =>
      match Value.parse? t with
      | some v => return v
      | none => throw (.dataMalformed path)

def checkOne (e : Engine Unit) (color verbose : Bool) (name : Text) : Job Nat := do
  let c ← Job.request (e.compile name)
  if c.hasErrors then do
    let count := decimal c.diagnostics.length ++ " structural error(s)".toList
    Job.print (bold color name ++ ' ' :: red color count ++ ['\n'])
    for d in c.diagnostics do Job.say (.fault d)
  else if verbose then Job.print (green color "ok".toList ++ ' ' :: name ++ ['\n'])
  return c.diagnostics.length

def checkAll (e : Engine Unit) (color verbose : Bool) : List Text → Job Nat
  | [] => return 0
  | name :: names => do
    let count ← checkOne e color verbose name
    return count + (← checkAll e color verbose names)

/-- Carry out a command; the result is its exit code. -/
def perform (a : Arguments) (color : Bool) : Command → Job Nat
  | .compile name => do
    let e ← buildEngine a
    Job.print (← Job.request (e.getCompiled name))
    return 0
  | .render name data => do
    let e ← buildEngine a
    let context ← readData data
    Job.print (← Job.request (e.render name context))
    return 0
  | .check names => do
    let e ← buildEngine a
    let count ← checkAll e color a.verbose names
    if count = 0 then do
      let all := "All ".toList ++ decimal names.length ++ " template(s) are well formed.".toList
      Job.print (green color all ++ ['\n'])
      return 0
    else do
      Job.say (.faultCount count)
      return 1
  | .cachePath name => do
    let e ← buildEngine a
    Job.print ((← Job.request (e.compiledPath name)).written ++ ['\n'])
    return 0

/-- Carry out a command line on the files of a project. -/
def run (a : Arguments) (color : Bool) (files : FileSystem) : Outcome × FileSystem :=
  match a.command with
  | none => ({ exit := 1, notices := [.noCommand] }, files)
  | some command =>
    let (result, p) := (perform a color command).run.run { session := ⟨files, (), []⟩ }
    match result with
    | .ok exit => (⟨exit, p.stdout, p.notices⟩, p.session.files)
    | .error n => (⟨2, p.stdout, p.notices ++ [n]⟩, p.session.files)

end TagTemplate.CommandLine
