/-
# CommandLine.Arguments -- what a command line asks for

A command line gives options for all commands, at most one command, and what
that command needs.  Options may stand before or after the command; the ones
behind it count more, also for options that are otherwise collected.

`Arguments.parse` reads the words in order.  An option waits for its value until
the next word, and what it was given is settled only when the next option or
word is taken (`Pending`), so a fault that is seen at once, such as an unknown
option, is reported before one in the value of the option before it.
-/
import TagTemplate.Text

namespace TagTemplate.CommandLine

set_option autoImplicit false

open Text

inductive Command where
  /-- Print the compiled text of a template. -/
  | compile (name : Text)
  /-- Render a template, with data from a file. -/
  | render (name : Text) (data : Option Text)
  /-- Report the faults of some templates. -/
  | check (names : List Text)
  /-- Print where the compiled text of a template lies. -/
  | cachePath (name : Text)
  deriving DecidableEq, Repr

structure Arguments where
  command : Option Command := none
  /-- The root of the project. -/
  path : Option Text := none
  templateDirs : List Text := []
  cacheDir : Option Text := none
  noCache : Bool := false
  stripSnippets : Bool := false
  verbose : Bool := false
  noColor : Bool := false
  deriving DecidableEq, Repr

/-- Why a command line is not carried out. -/
inductive Halt where
  | missingRequiredArgument
  | unknownArgument
  | invalidSubcommand
  | invalidValue
  | argumentConflict
  | tooManyValues
  /-- Help was asked for. -/
  | help
  /-- The version was asked for. -/
  | version
  deriving DecidableEq, Repr

/-! ## Options -/

inductive CommandName where
  | compile
  | render
  | check
  | cachePath
  deriving DecidableEq, Repr

def commandName? (word : Text) : Option CommandName :=
  if word = "compile".toList then some .compile
  else if word = "render".toList then some .render
  else if word = "check".toList then some .check
  else if word = "cache-path".toList then some .cachePath
  else none

def helpWord : Text := "help".toList

/-- The options that take a value; each value is a path. -/
inductive Setting where
  | path
  | templateDir
  | cacheDir
  | data
  deriving DecidableEq, Repr

/-- The options that take none. -/
inductive Flag where
  | noCache
  | stripSnippets
  | verbose
  | noColor
  | help
  | version
  deriving DecidableEq, Repr

/-- The option of a long name; `inside` is the command that it stands behind. -/
def long? (inside : Option CommandName) (name : Text) : Option (Setting ⊕ Flag) :=
  if name = "path".toList then some (.inl .path)
  else if name = "template-dir".toList then some (.inl .templateDir)
  else if name = "cache-dir".toList then some (.inl .cacheDir)
  else if name = "data".toList ∧ inside = some .render then some (.inl .data)
  else if name = "no-cache".toList then some (.inr .noCache)
  else if name = "strip-host-snippets".toList then some (.inr .stripSnippets)
  else if name = "verbose".toList then some (.inr .verbose)
  else if name = "no-color".toList then some (.inr .noColor)
  else if name = "help".toList then some (.inr .help)
  else if name = "version".toList ∧ inside = none then some (.inr .version)
  else none

def short? (inside : Option CommandName) (c : Char) : Option (Setting ⊕ Flag) :=
  if c = 'p' then some (.inl .path)
  else if c = 't' then some (.inl .templateDir)
  else if c = 'v' then some (.inr .verbose)
  else if c = 'h' then some (.inr .help)
  else if c = 'V' ∧ inside = none then some (.inr .version)
  else none

/-! ## What was given -/

/-- What was given before a command, or behind it. -/
structure Given where
  path : Option Text := none
  templateDirs : List Text := []
  cacheDir : Option Text := none
  data : Option Text := none
  noCache : Bool := false
  stripSnippets : Bool := false
  verbose : Bool := false
  noColor : Bool := false
  words : List Text := []
  deriving DecidableEq, Repr

/-- An option whose value is not settled yet. -/
inductive Pending where
  | none
  | waiting (s : Setting)
  | value (s : Setting) (v : Text)
  deriving DecidableEq, Repr

namespace Given

def value? (g : Given) : Setting → Option Text
  | .path => g.path
  | .templateDir => none
  | .cacheDir => g.cacheDir
  | .data => g.data

def set (g : Given) (s : Setting) (v : Text) : Except Halt Given :=
  if (g.value? s).isSome then .error .argumentConflict
  else if v.isEmpty then .error .invalidValue
  else
    match s with
    | .path => .ok { g with path := some v }
    | .templateDir => .ok { g with templateDirs := g.templateDirs ++ [v] }
    | .cacheDir => .ok { g with cacheDir := some v }
    | .data => .ok { g with data := some v }

def flag (g : Given) : Flag → Except Halt Given
  | .noCache => if g.noCache then .error .argumentConflict else .ok { g with noCache := true }
  | .stripSnippets =>
    if g.stripSnippets then .error .argumentConflict else .ok { g with stripSnippets := true }
  | .verbose => if g.verbose then .error .argumentConflict else .ok { g with verbose := true }
  | .noColor => if g.noColor then .error .argumentConflict else .ok { g with noColor := true }
  | .help => .error .help
  | .version => .error .version

def settle (g : Given) : Pending → Except Halt Given
  | .none => .ok g
  | .waiting _ => .error .invalidValue
  | .value s v => g.set s v

/-- Take an option that needs a value, with the value attached to it, if any. -/
def take (g : Given) (p : Pending) (s : Setting) : Option Text → Except Halt (Given × Pending)
  | some v => do return (← (← g.settle p).set s v, .none)
  | none => do return (← g.settle p, .waiting s)

def takeShort (inside : Option CommandName) (g : Given) (p : Pending) : Text → Except Halt (Given × Pending)
  | [] => .ok (g, p)
  | c :: rest =>
    match short? inside c with
    | none => .error .unknownArgument
    | some (.inl s) =>
      match rest with
      | [] => g.take p s none
      | '=' :: v => g.take p s (some v)
      | v => g.take p s (some v)
    | some (.inr f) => do takeShort inside (← (← g.settle p).flag f) .none rest

def takeLong (inside : Option CommandName) (g : Given) (p : Pending) (word : Text) :
    Except Halt (Given × Pending) :=
  let (name, attached) := match cut? ['='] word with
    | some (name, v) => (name, some v)
    | none => (word, none)
  match long? inside name, attached with
  | none, _ => .error .unknownArgument
  | some (.inl s), attached => g.take p s attached
  | some (.inr _), some _ => .error .tooManyValues
  | some (.inr f), none => do return (← (← g.settle p).flag f, .none)

def takeWord (command : CommandName) (g : Given) (p : Pending) (word : Text) :
    Except Halt (Given × Pending) :=
  if command = .check ∨ g.words.isEmpty then do
    let g ← g.settle p
    return ({ g with words := g.words ++ [word] }, .none)
  else .error .unknownArgument

end Given

/-! ## Reading -/

def takeOption? (inside : Option CommandName) (g : Given) (p : Pending) :
    Text → Option (Except Halt (Given × Pending))
  | '-' :: '-' :: word => some (g.takeLong inside p word)
  | '-' :: c :: word => some (g.takeShort inside p (c :: word))
  | _ => none

/-- Read what stands behind a command.  After `--` no word is an option. -/
def readInside (command : CommandName) (onlyWords : Bool) (g : Given) (p : Pending) :
    List Text → Except Halt Given
  | [] => g.settle p
  | word :: rest =>
    if onlyWords then do
      let (g, p) ← g.takeWord command p word
      readInside command onlyWords g p rest
    else if word = "--".toList then readInside command true g p rest
    else
      match takeOption? (some command) g p word, p with
      | some taken, _ => do
        let (g, p) ← taken
        readInside command onlyWords g p rest
      | none, .waiting s => readInside command onlyWords g (.value s word) rest
      | none, p => do
        let (g, p) ← g.takeWord command p word
        readInside command onlyWords g p rest

def commandOf (command : CommandName) (g : Given) : Except Halt Command :=
  match command, g.words with
  | _, [] => .error .missingRequiredArgument
  | .compile, name :: _ => .ok (.compile name)
  | .render, name :: _ => .ok (.render name g.data)
  | .check, names => .ok (.check names)
  | .cachePath, name :: _ => .ok (.cachePath name)

/-- Why help on some commands is not what comes next, or that it is. -/
def helpOn : List Text → Halt
  | [] => .help
  | [word] => if word = helpWord ∨ (commandName? word).isSome then .help else .invalidSubcommand
  | _ => .invalidSubcommand

def Given.merge (outer inner : Given) (command : Option Command) : Arguments where
  command := command
  path := inner.path.or outer.path
  templateDirs := if inner.templateDirs.isEmpty then outer.templateDirs else inner.templateDirs
  cacheDir := inner.cacheDir.or outer.cacheDir
  noCache := inner.noCache || outer.noCache
  stripSnippets := inner.stripSnippets || outer.stripSnippets
  verbose := inner.verbose || outer.verbose
  noColor := inner.noColor || outer.noColor

/-- Read a command line from its first word on.  After `--` no word is an option or a command. -/
def readOuter (onlyWords : Bool) (g : Given) (p : Pending) : List Text → Except Halt Arguments
  | [] => do return (← g.settle p).merge {} none
  | word :: rest =>
    if onlyWords then
      .error (if word = helpWord ∨ (commandName? word).isSome then .unknownArgument else .invalidSubcommand)
    else
      match p with
      | .waiting s =>
        if word = "--".toList then readOuter true g p rest
        else
          match takeOption? none g p word with
          | some taken => do
            let (g, p) ← taken
            readOuter false g p rest
          | none => readOuter false g (.value s word) rest
      | p =>
        match commandName? word with
        | some command => do
          let inner ← readInside command false {} .none rest
          let asked ← commandOf command inner
          return (← g.settle p).merge inner (some asked)
        | none =>
          if word = helpWord then .error (helpOn rest)
          else if word = "--".toList then readOuter true g p rest
          else
            match takeOption? none g p word with
            | some taken => do
              let (g, p) ← taken
              readOuter false g p rest
            | none => .error .invalidSubcommand

/-- Read a command line without the name of the program. -/
def Arguments.parse (words : List Text) : Except Halt Arguments := readOuter false {} .none words

end TagTemplate.CommandLine
