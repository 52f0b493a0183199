/-
# Cache -- compiled templates on disk

A cache keeps one file for each source, its artifact.  Where it lies is decided
by the written path of the source alone: two levels of directories and the name
of the file are taken from the digest of that path (`artifact`).

`store` replaces an artifact in one step: the contents go to a temporary file
beside it, which takes the read and write permissions of its directory and is
then moved over the artifact; if that fails it is removed.  If already the contents
cannot be written, what there is of the temporary file stays.  `load` answers only
while the artifact is fresh: not empty, and changed no earlier than the source.
-/
import TagTemplate.Device
import TagTemplate.Error
import TagTemplate.Event
import TagTemplate.Sha256

namespace TagTemplate

set_option autoImplicit false

open Text

/-- Compiled templates below a directory. -/
structure Cache where
  root : Location
  deriving DecidableEq, Repr

namespace Cache

/-- The directory of compiled templates below the root of a cache. -/
def folder : Text := "tagtpl".toList

def extension : Text := ".tpl".toList

/-- The cache in an existing directory.  A file is written there and removed to see that it can be. -/
def openAt (fs : FileSystem) (path : Text) : Except Error (Cache × FileSystem) :=
  match fs.resolve path with
  | .error e => .error (.cacheDirectory path (.file e))
  | .ok root =>
    if fs.isDirAt root then .ok (⟨root⟩, fs.touch root)
    else .error (.cacheDirectory path .noDirectory)

/-- The directory of the artifact of a source, given by its written path. -/
def shard (c : Cache) (source : Text) : Location :=
  let digest := Sha256.hex source
  c.root ++ [folder, digest.take 2, (digest.drop 2).take 2]

/-- The artifact of a source, given by its written path.  That is a text: paths that are no UTF-8 are left out, which are
digested with replacement characters for what is invalid in them, so that two of them can share an artifact. -/
def artifact (c : Cache) (source : Text) : Location :=
  c.shard source ++ [Sha256.hex source ++ extension]

/-- The file that contents are written to before they become the artifact of a source.  Its name tells calls apart by
their time; the number of the process, which does so as well, is left out. -/
def temporary (c : Cache) (fs : FileSystem) (source : Text) : Location :=
  c.shard source ++ [Sha256.hex source ++ extension ++ ".tmp-".toList ++ decimal fs.now]

/-- The artifact of a source at a location, as long as it is fresh. -/
def loadAt (c : Cache) (fs : FileSystem) (source : Text) (file : Location) : Option Text :=
  if fs.isFreshAt (c.artifact source) file then (fs.readAt (c.artifact source)).toOption else none

def load (c : Cache) (fs : FileSystem) (source : Text) : Option Text :=
  match fs.reach source with
  | .ok file => c.loadAt fs source file
  | .error _ => none

/-- The permission bits of an artifact: those of its directory, without the execute bits. -/
def artifactMode (fs : FileSystem) (shard : Location) : Nat :=
  ((fs.get? shard).map (·.mode)).getD 0 &&& 0o666

/-- Replace the artifact of a source, on a device that may fail. -/
def store (c : Cache) (fs : FileSystem) (source contents : Text) (device : Device := {}) :
    FileSystem × Except FileError Location :=
  let artifact := c.artifact source
  let temporary := c.temporary fs source
  match fs.makeBelow [] (c.shard source) with
  | .error e => (fs, .error e)
  | .ok fs =>
    match fs.writeOn device temporary contents with
    | (fs, .error e) => (fs, .error e)
    | (fs, .ok ()) =>
      let fs := fs.setModeOn device temporary (artifactMode fs (c.shard source))
      match fs.moveOn device temporary artifact with
      | .error e => (fs.removeOn device temporary, .error e)
      | .ok fs => (fs, .ok artifact)

end Cache

end TagTemplate
