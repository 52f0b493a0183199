/-
# Device -- what can fail below the files

A device does not have to take what is asked of it.  A file may not be opened for
writing; a text may get into it in part only; its permission bits may stay as they
are; and it may neither be moved nor removed.  What was done before an error stays.

An operation on a sound device, which refuses nothing, is the one of `FileSystem`.
-/
import TagTemplate.FileSystem

namespace TagTemplate

set_option autoImplicit false

open Text

/-- What a device refuses, and the error it refuses it with. -/
structure Device where
  opening : Option FileError := none
  /-- How many bytes of a text it takes, and the error after that. -/
  room : Option (Nat × FileError) := none
  /-- Whether permission bits are changed. -/
  permits : Bool := true
  moving : Option FileError := none
  /-- Whether files are removed. -/
  removes : Bool := true
  deriving DecidableEq, Repr

/-- What gets to a file of a text that is written, and how that ends. -/
def Device.take (d : Device) (t : Text) : Contents × Except FileError Unit :=
  match d.room with
  | none => (.text t, .ok ())
  | some (room, cause) =>
    if room < size t then (.ofBytes ((bytes t).take room), .error cause) else (.text t, .ok ())

namespace FileSystem

variable (fs : FileSystem) (d : Device)

def writeOn (l : Location) (t : Text) : FileSystem × Except FileError Unit :=
  match d.opening with
  | some cause => (fs, .error cause)
  | none =>
    match fs.writeAt l (d.take t).1 with
    | .ok written => (written, (d.take t).2)
    | .error e => (fs, .error e)

def setModeOn (l : Location) (mode : Nat) : FileSystem := if d.permits then fs.setMode l mode else fs

def moveOn (source target : Location) : Except FileError FileSystem :=
  match d.moving with
  | some cause => .error cause
  | none => fs.move source target

def removeOn (l : Location) : FileSystem := if d.removes then fs.remove l else fs

end FileSystem

end TagTemplate
