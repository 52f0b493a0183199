/-
# Proofs.FileSystem.Making -- making directories leaves files alone

A directory is made where there is nothing, in a directory that exists; besides that
the time of the latter changes.  So no file appears, disappears or changes, also where
directories above are made first, and where that ends with an error
(`file?_makeDirectories`).
-/
import TagTemplate.Proofs.FileSystem

namespace TagTemplate.FileSystem

set_option autoImplicit false

variable {fs made : FileSystem}

theorem file?_addDirectory (fs : FileSystem) {here : Location} {name : Text} (parent : fs.isDirAt here = true)
    (nothing : fs.get? (here ++ [name]) = none) (m : Location) :
    (fs.addDirectory (here ++ [name])).file? m = fs.file? m := by
  have ne : here ≠ here ++ [name] := fun eq => by simpa using congrArg List.length eq
  have stays : (fs.set (here ++ [name]) (.directory newDirectoryMode fs.now)).file? m = fs.file? m := by
    rw [file?_set]
    split
    · rename_i same
      rw [same, file?, nothing]
      rfl
    · rfl
  rw [addDirectory, List.dropLast_concat, file?_touch, stays]
  left
  rw [isDirAt_set, if_neg ne, parent]

/-- A place is in a directory. -/
theorem isDirAt_of_place {path : Text} {here : Location} {name : Text} (placed : fs.place path = .ok (here, name)) :
    fs.isDirAt here = true := by
  unfold place at placed
  split at placed
  · cases placed
  split at placed
  · cases placed
  split at placed
  · cases placed
  split at placed
  · cases placed
  split at placed
  · cases placed
  split at placed
  · cases placed
  rename_i isDir
  split at placed
  · cases placed
  · cases placed
    simpa using isDir

theorem file?_makeDirectory {path : Text} (ok : fs.makeDirectory path = .ok made) (m : Location) :
    made.file? m = fs.file? m := by
  unfold makeDirectory at ok
  split at ok
  · cases ok
  rename_i here name placed
  split at ok
  · cases ok
  split at ok
  · cases ok
  rename_i free
  cases ok
  exact file?_addDirectory fs (isDirAt_of_place placed) (by simpa using free) m

theorem file?_makeFirst (paths : List Text) (fs : FileSystem) (m : Location) :
    (fs.makeFirst paths).1.file? m = fs.file? m := by
  induction paths generalizing fs with
  | nil => rfl
  | cons path above ih =>
    unfold makeFirst
    extract_lets settle
    have settles (fs : FileSystem) (result : Except FileError FileSystem) (made : fs.makeDirectory path = result) :
        (settle fs result).1.file? m = fs.file? m := by
      cases result with
      | ok fs' => exact file?_makeDirectory made m
      | error e => rfl
    split
    · rfl
    split
    · specialize ih fs
      split
      · rename_i first
        rw [first] at ih
        exact (settles _ _ rfl).trans ih
      · rename_i first
        rw [first] at ih
        exact ih
    · exact settles fs _ rfl

/-- **Making directories changes no file**, whether it succeeds or not. -/
theorem file?_makeDirectories (fs : FileSystem) (path : Text) (m : Location) :
    (fs.makeDirectories path).1.file? m = fs.file? m :=
  file?_makeFirst _ fs m

end TagTemplate.FileSystem
