/-
# FileSystem -- directories and files, and what can be done with them

A file system lists an entry for each location: a file with its contents, or a
directory.  Both have permission bits and a modification time; whatever is
written gets the time `now`.  There are no links, so a path comes down to one
location (`resolve`): its segments are walked one by one, each from an existing
directory, and `..` goes one up.  Operations take paths of at most `maxPath`
bytes (`reach`).

`makeDirectories` makes the directories that are missing on the way to a path, as
far as it gets: what was made before an error stays.

Contents are text, or bytes that are no UTF-8 text (`Contents.ofBytes`); reading
the latter as text is an error of its own.
-/
import TagTemplate.Path

namespace TagTemplate

set_option autoImplicit false

open Text

/-- What can go wrong with a file or a directory. -/
inductive FileError where
  | notFound
  | exists
  | notADirectory
  | isADirectory
  | nameTooLong
  | notText
  | nulInName
  | inputOutput
  | fileTooLarge
  | noSpace
  | quotaExceeded
  deriving DecidableEq, Repr

def FileError.message : FileError → Text
  | .notFound => "No such file or directory (os error 2)".toList
  | .exists => "File exists (os error 17)".toList
  | .notADirectory => "Not a directory (os error 20)".toList
  | .isADirectory => "Is a directory (os error 21)".toList
  | .nameTooLong => "File name too long (os error 36)".toList
  | .notText => "stream did not contain valid UTF-8".toList
  | .nulInName => "file name contained an unexpected NUL byte".toList
  | .inputOutput => "Input/output error (os error 5)".toList
  | .fileTooLarge => "File too large (os error 27)".toList
  | .noSpace => "No space left on device (os error 28)".toList
  | .quotaExceeded => "Disk quota exceeded (os error 122)".toList

/-- What a file holds. -/
inductive Contents where
  | text (t : Text)
  /-- Bytes that are the UTF-8 form of no text. -/
  | binary (bytes : List UInt8)
  deriving DecidableEq, Repr

namespace Contents

def ofBytes (bytes : List UInt8) : Contents :=
  match String.fromUTF8? ⟨bytes.toArray⟩ with
  | some s => .text s.toList
  | none => .binary bytes

def text? : Contents → Option Text
  | .text t => some t
  | .binary _ => none

def isEmpty : Contents → Bool
  | .text t => t.isEmpty
  | .binary b => b.isEmpty

end Contents

inductive Entry where
  | file (contents : Contents) (mode modified : Nat)
  | directory (mode modified : Nat)
  deriving DecidableEq, Repr

namespace Entry

def mode : Entry → Nat
  | .file _ m _ => m
  | .directory m _ => m

def modified : Entry → Nat
  | .file _ _ t => t
  | .directory _ t => t

def withMode (mode : Nat) : Entry → Entry
  | .file c _ t => .file c mode t
  | .directory _ t => .directory mode t

def withModified (modified : Nat) : Entry → Entry
  | .file c m _ => .file c m modified
  | .directory m _ => .directory m modified

def isFile : Entry → Bool
  | .file .. => true
  | .directory .. => false

/-- Whether an entry takes up room; a directory always does. -/
def isEmpty : Entry → Bool
  | .file c _ _ => c.isEmpty
  | .directory .. => false

end Entry

/-- Directories and files by location. -/
structure FileSystem where
  entries : List (Location × Entry)
  /-- The directory that relative paths start from. -/
  workDir : Location := []
  /-- The modification time given to what is written. -/
  now : Nat := 0
  deriving DecidableEq, Repr

namespace FileSystem

def newFileMode : Nat := 0o644

def newDirectoryMode : Nat := 0o755

def empty : FileSystem := ⟨[([], .directory newDirectoryMode 0)], [], 0⟩

/-! ## Entries -/

def get? (fs : FileSystem) (l : Location) : Option Entry :=
  (fs.entries.find? fun e => e.1 == l).map (·.2)

def setEntry (l : Location) (e : Entry) : List (Location × Entry) → List (Location × Entry)
  | [] => [(l, e)]
  | x :: xs => if x.1 = l then (l, e) :: xs else x :: setEntry l e xs

def set (fs : FileSystem) (l : Location) (e : Entry) : FileSystem :=
  { fs with entries := setEntry l e fs.entries }

def erase (fs : FileSystem) (l : Location) : FileSystem :=
  { fs with entries := fs.entries.filter fun e => !l.isPrefixOf e.1 }

def touch (fs : FileSystem) (l : Location) : FileSystem :=
  match fs.get? l with
  | some e => fs.set l (e.withModified fs.now)
  | none => fs

def isFileAt (fs : FileSystem) (l : Location) : Bool := (fs.get? l).any (·.isFile)

def isDirAt (fs : FileSystem) (l : Location) : Bool := (fs.get? l).any (!·.isFile)

/-! ## Paths -/

def maxName : Nat := 255

def maxPath : Nat := 4095

def walk (fs : FileSystem) (here : Location) : List Text → Except FileError Location
  | [] => .ok here
  | s :: ss =>
    if !fs.isDirAt here then .error .notADirectory
    else if s = [] ∨ s = ['.'] then walk fs here ss
    else if s = ['.', '.'] then walk fs here.dropLast ss
    else if maxName < size s then .error .nameTooLong
    else if (fs.get? (here ++ [s])).isNone then .error .notFound
    else walk fs (here ++ [s]) ss

def startOf (fs : FileSystem) (path : Text) : Location :=
  if Path.isAbsolute path then [] else fs.workDir

def resolve (fs : FileSystem) (path : Text) : Except FileError Location :=
  if path.isEmpty then .error .notFound
  else if path.contains '\x00' then .error .nulInName
  else fs.walk (fs.startOf path) (Path.segments path)

def reach (fs : FileSystem) (path : Text) : Except FileError Location :=
  if !path.contains '\x00' && maxPath < size path then .error .nameTooLong else fs.resolve path

def directory? (fs : FileSystem) (path : Text) : Option Location :=
  match fs.resolve path with
  | .ok l => if fs.isDirAt l then some l else none
  | .error _ => none

def isFile (fs : FileSystem) (path : Text) : Bool :=
  match fs.reach path with
  | .ok l => fs.isFileAt l
  | .error _ => false

def isDirectory (fs : FileSystem) (path : Text) : Bool :=
  match fs.reach path with
  | .ok l => fs.isDirAt l
  | .error _ => false

/-- A place for an entry: an existing directory, and a name in it. -/
def place (fs : FileSystem) (path : Text) : Except FileError (Location × Text) :=
  if path.isEmpty then .error .notFound
  else if path.contains '\x00' then .error .nulInName
  else if maxPath < size path then .error .nameTooLong
  else
    match Path.lastName? path with
    | none => .error .exists
    | some (before, name) =>
      match fs.walk (fs.startOf path) before with
      | .error e => .error e
      | .ok here =>
        if !fs.isDirAt here then .error .notADirectory
        else if name = ['.'] ∨ name = ['.', '.'] then .error .exists
        else .ok (here, name)

/-! ## Reading -/

def readAt (fs : FileSystem) (l : Location) : Except FileError Text :=
  match fs.get? l with
  | none => .error .notFound
  | some (.directory ..) => .error .isADirectory
  | some (.file c _ _) =>
    match c.text? with
    | some t => .ok t
    | none => .error .notText

def read (fs : FileSystem) (path : Text) : Except FileError Text := fs.reach path >>= fs.readAt

/-- Whether one location is not empty and was changed no earlier than another one. -/
def isFreshAt (fs : FileSystem) (l m : Location) : Bool :=
  match fs.get? l, fs.get? m with
  | some a, some b => !a.isEmpty && decide (b.modified ≤ a.modified)
  | _, _ => false

/-- Whether what one path names is not empty and was changed no earlier than what another names. -/
def isFresh (fs : FileSystem) (path other : Text) : Bool :=
  match fs.reach path, fs.reach other with
  | .ok l, .ok m => fs.isFreshAt l m
  | _, _ => false

/-! ## Writing -/

/-- Write a file at a location whose directory exists.  An existing file keeps its permissions. -/
def writeAt (fs : FileSystem) (l : Location) (c : Contents) : Except FileError FileSystem :=
  match fs.get? l with
  | some (.directory ..) => .error .isADirectory
  | some (.file _ mode _) => .ok (fs.set l (.file c mode fs.now))
  | none => .ok ((fs.set l (.file c newFileMode fs.now)).touch l.dropLast)

def addDirectory (fs : FileSystem) (l : Location) : FileSystem :=
  (fs.set l (.directory newDirectoryMode fs.now)).touch l.dropLast

/-- Make the directories that are missing from a location down through some names. -/
def makeBelow (fs : FileSystem) (here : Location) : List Text → Except FileError FileSystem
  | [] => .ok fs
  | s :: ss =>
    match fs.get? (here ++ [s]) with
    | some (.directory ..) => makeBelow fs (here ++ [s]) ss
    | some (.file ..) => .error (if ss.isEmpty then .exists else .notADirectory)
    | none => makeBelow (fs.addDirectory (here ++ [s])) (here ++ [s]) ss

def makeDirectory (fs : FileSystem) (path : Text) : Except FileError FileSystem :=
  match fs.place path with
  | .error e => .error e
  | .ok (here, name) =>
    if maxName < size name then .error .nameTooLong
    else if (fs.get? (here ++ [name])).isSome then .error .exists
    else .ok (fs.addDirectory (here ++ [name]))

/-- Make the first of some directories, each of which is above the one before it; when it has no place
yet, those above it are made first. -/
def makeFirst (fs : FileSystem) : List Text → FileSystem × Except FileError Unit
  | [] => (fs, .ok ())
  | path :: above =>
    let settle (fs : FileSystem) : Except FileError FileSystem → FileSystem × Except FileError Unit
      | .ok made => (made, .ok ())
      | .error e => (fs, if fs.isDirectory path then .ok () else .error e)
    if path.isEmpty then (fs, .ok ())
    else
      match fs.makeDirectory path with
      | .error .notFound =>
        match makeFirst fs above with
        | (fs, .ok ()) => settle fs (fs.makeDirectory path)
        | (fs, .error e) => (fs, .error e)
      | made => settle fs made

def makeDirectories (fs : FileSystem) (path : Text) : FileSystem × Except FileError Unit :=
  fs.makeFirst (path :: Path.ancestors path)

def writeFile (fs : FileSystem) (path : Text) (c : Contents) : Except FileError FileSystem :=
  match fs.place path with
  | .error .exists => .error .isADirectory
  | .error e => .error e
  | .ok (here, name) =>
    if path.getLast? = some '/' then .error .isADirectory
    else if maxName < size name then .error .nameTooLong
    else fs.writeAt (here ++ [name]) c

/-- Write the file that a path names, and make the directories above it. -/
def write (fs : FileSystem) (path : Text) (c : Contents) : FileSystem × Except FileError Unit :=
  match fs.makeFirst (Path.ancestors path) with
  | (fs, .error e) => (fs, .error e)
  | (fs, .ok ()) =>
    match fs.writeFile path c with
    | .ok written => (written, .ok ())
    | .error e => (fs, .error e)

def move (fs : FileSystem) (source target : Location) : Except FileError FileSystem :=
  match fs.get? source with
  | none => .error .notFound
  | some e =>
    if fs.isDirAt target then .error .isADirectory
    else .ok ((((fs.erase source).set target e).touch source.dropLast).touch target.dropLast)

def setMode (fs : FileSystem) (l : Location) (mode : Nat) : FileSystem :=
  match fs.get? l with
  | some e => fs.set l (e.withMode mode)
  | none => fs

def setModified (fs : FileSystem) (l : Location) (modified : Nat) : FileSystem :=
  match fs.get? l with
  | some e => fs.set l (e.withModified modified)
  | none => fs

def remove (fs : FileSystem) (l : Location) : FileSystem := (fs.erase l).touch l.dropLast

/-! ## Listing -/

def hasChildren (fs : FileSystem) (l : Location) : Bool :=
  fs.entries.any fun e => l.isPrefixOf e.1 && e.1 != l

/-- What a listing shows of an entry: a file, or a directory with nothing in it. -/
def listed? (fs : FileSystem) (l : Location) : Option Text :=
  if fs.isFileAt l then some l.written
  else if fs.hasChildren l then none
  else some (l.written ++ ['/'])

/-- The files and empty directories from a location down, sorted by path. -/
def listing (fs : FileSystem) (l : Location) : List Text :=
  let below := fs.entries.filter fun e => l.isPrefixOf e.1
  (below.filterMap fun e => fs.listed? e.1).mergeSort fun a b => !decide (b < a)

end FileSystem

end TagTemplate
