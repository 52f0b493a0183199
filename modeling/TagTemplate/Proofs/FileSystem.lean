/-
# Proofs.FileSystem -- which files an operation changes

What a file system says of files is `file?`: the file at a location, with its
contents and its modification time, and nothing for a directory.  Operations
write, move and remove single files, and make and touch directories, which
`file?` does not see.  So each operation has a frame: the locations whose file is
the same afterwards.

Directories are touched above what is written.  That they are directories is what
keeps the touch out of the frame; `makeBelow` makes sure of it, except for the
root that it starts from, so the root itself is left out (`file?_makeBelow`).

Walking a path asks only where files and directories are (`kind?`), which touching
and rewriting leave alone altogether.
-/
import TagTemplate.FileSystem

namespace TagTemplate

set_option autoImplicit false

namespace FileSystem

/-! ## Entries -/

theorem find?_setEntry (l m : Location) (e : Entry) (entries : List (Location × Entry)) :
    (setEntry l e entries).find? (fun x => x.1 == m) =
      if m = l then some (l, e) else entries.find? fun x => x.1 == m := by
  induction entries with
  | nil =>
    by_cases same : m = l
    · simp [setEntry, same]
    · simp [setEntry, same, Ne.symm same]
  | cons x entries ih =>
    by_cases here : x.1 = l
    · by_cases same : m = l
      · simp [setEntry, here, same]
      · simp [setEntry, here, same, Ne.symm same]
    · by_cases same : m = l
      · subst same
        simpa [setEntry, here] using ih
      · simp only [setEntry, if_neg here, List.find?_cons, ih, if_neg same]

theorem get?_set (fs : FileSystem) (l m : Location) (e : Entry) :
    (fs.set l e).get? m = if m = l then some e else fs.get? m := by
  simp only [get?, set, find?_setEntry]
  split <;> rfl

theorem get?_erase (fs : FileSystem) (l m : Location) :
    (fs.erase l).get? m = if l.isPrefixOf m then none else fs.get? m := by
  simp only [get?, erase, List.find?_filter]
  by_cases below : l.isPrefixOf m
  · rw [if_pos below, Option.map_eq_none_iff, List.find?_eq_none]
    intro x _
    by_cases same : x.1 = m
    · simp [same, below]
    · simp [same]
  · rw [if_neg below]
    congr 2
    funext x
    by_cases same : x.1 = m
    · simp [same, below]
    · simp [same]

theorem mem_entries_of_get? {fs : FileSystem} {l : Location} {e : Entry} (found : fs.get? l = some e) :
    (l, e) ∈ fs.entries := by
  unfold get? at found
  obtain ⟨x, first, rfl⟩ := Option.map_eq_some_iff.1 found
  have same : x.1 = l := by simpa using List.find?_some first
  exact same ▸ List.mem_of_find?_eq_some first

/-! ## Files -/

def file? (fs : FileSystem) (l : Location) : Option Entry := (fs.get? l).filter (·.isFile)

theorem file?_of_isDirAt {fs : FileSystem} {l : Location} (dir : fs.isDirAt l = true) : fs.file? l = none := by
  unfold isDirAt at dir
  unfold file?
  cases found : fs.get? l with
  | none => rfl
  | some e =>
    rw [found] at dir
    cases e with
    | file _ _ _ => cases dir
    | directory _ _ => rfl

theorem readAt_eq_ok_iff (fs : FileSystem) (l : Location) (t : Text) :
    fs.readAt l = .ok t ↔ ∃ mode modified, fs.file? l = some (.file (.text t) mode modified) := by
  unfold readAt file?
  cases fs.get? l with
  | none => simp
  | some e =>
    cases e with
    | directory _ _ => simp [Option.filter, Entry.isFile]
    | file c mode modified =>
      cases c with
      | text t' => simp [Contents.text?, Option.filter, Entry.isFile]
      | binary _ => simp [Contents.text?, Option.filter, Entry.isFile]

theorem file?_set (fs : FileSystem) (l m : Location) (e : Entry) :
    (fs.set l e).file? m = if m = l then (some e).filter (·.isFile) else fs.file? m := by
  unfold file?
  rw [get?_set]
  split <;> rfl

theorem file?_set_of_ne (fs : FileSystem) {l m : Location} (e : Entry) (ne : m ≠ l) :
    (fs.set l e).file? m = fs.file? m := by
  rw [file?_set, if_neg ne]

theorem file?_erase (fs : FileSystem) {l m : Location} (apart : ¬ l <+: m) :
    (fs.erase l).file? m = fs.file? m := by
  unfold file?
  rw [get?_erase, if_neg (fun below => apart (List.isPrefixOf_iff_prefix.1 below))]

/-- Touching changes nothing of files but the one that is touched. -/
theorem file?_touch (fs : FileSystem) {l m : Location} (dir : fs.isDirAt l = true ∨ m ≠ l) :
    (fs.touch l).file? m = fs.file? m := by
  unfold touch
  cases found : fs.get? l with
  | none => rfl
  | some e =>
    by_cases same : m = l
    · subst same
      have isDir : fs.isDirAt m = true := dir.resolve_right fun ne => ne rfl
      rw [file?_set, if_pos rfl, file?_of_isDirAt isDir]
      rw [isDirAt, found] at isDir
      cases e with
      | file _ _ _ => cases isDir
      | directory _ _ => rfl
    · exact file?_set_of_ne fs _ same

/-! ## Kinds -/

def kind? (fs : FileSystem) (l : Location) : Option Bool := (fs.get? l).map (·.isFile)

theorem isFileAt_eq_kind? (fs : FileSystem) (l : Location) : fs.isFileAt l = (fs.kind? l == some true) := by
  unfold isFileAt kind?
  cases fs.get? l with
  | none => rfl
  | some e => cases e <;> rfl

theorem exists_of_isFileAt {fs : FileSystem} {l : Location} (isFile : fs.isFileAt l = true) :
    ∃ c mode modified, fs.get? l = some (.file c mode modified) := by
  unfold isFileAt at isFile
  cases found : fs.get? l with
  | none => simp [found] at isFile
  | some entry =>
    cases entry with
    | file c mode modified => exact ⟨c, mode, modified, rfl⟩
    | directory _ _ => simp [found, Entry.isFile] at isFile

theorem file?_of_kind? {fs : FileSystem} {l : Location} (nothing : fs.kind? l = none) : fs.file? l = none := by
  rw [file?, Option.map_eq_none_iff.1 nothing]
  rfl

theorem isDirAt_eq_kind? (fs : FileSystem) (l : Location) : fs.isDirAt l = (fs.kind? l == some false) := by
  unfold isDirAt kind?
  cases fs.get? l with
  | none => rfl
  | some e => cases e <;> rfl

theorem isDirAt_congr {fs fs' : FileSystem} {l : Location} (same : fs'.kind? l = fs.kind? l) :
    fs'.isDirAt l = fs.isDirAt l := by
  rw [isDirAt_eq_kind?, isDirAt_eq_kind?, same]

/-- Reading depends on what is at a location and on the file there. -/
theorem readAt_congr {fs fs' : FileSystem} {l : Location} (kind : fs'.kind? l = fs.kind? l)
    (file : fs'.file? l = fs.file? l) : fs'.readAt l = fs.readAt l := by
  unfold kind? at kind
  unfold file? at file
  unfold readAt
  generalize fs'.get? l = e' at kind file ⊢
  generalize fs.get? l = e at kind file ⊢
  rcases e' with _ | ⟨_⟩ | ⟨_⟩ <;> rcases e with _ | ⟨_⟩ | ⟨_⟩ <;> cases kind <;> cases file <;> rfl

theorem kind?_set (fs : FileSystem) (l m : Location) (e : Entry) :
    (fs.set l e).kind? m = if m = l then some e.isFile else fs.kind? m := by
  unfold kind?
  rw [get?_set]
  split <;> rfl

theorem kind?_set_of_ne (fs : FileSystem) {l m : Location} (e : Entry) (ne : m ≠ l) :
    (fs.set l e).kind? m = fs.kind? m := by
  rw [kind?_set, if_neg ne]

/-- Changing an entry keeps what is where as long as a file stays a file. -/
theorem kind?_set_of_get? {fs : FileSystem} {l : Location} {e e' : Entry} (found : fs.get? l = some e)
    (same : e'.isFile = e.isFile) (m : Location) : (fs.set l e').kind? m = fs.kind? m := by
  rw [kind?_set]
  split
  · rename_i eq
    rw [eq, kind?, found, same]
    rfl
  · rfl

@[simp] theorem isFile_withModified (e : Entry) (modified : Nat) : (e.withModified modified).isFile = e.isFile := by
  cases e <;> rfl

@[simp] theorem isFile_withMode (e : Entry) (mode : Nat) : (e.withMode mode).isFile = e.isFile := by
  cases e <;> rfl

@[simp] theorem kind?_touch (fs : FileSystem) (l m : Location) : (fs.touch l).kind? m = fs.kind? m := by
  unfold touch
  split
  · rename_i e found
    exact kind?_set_of_get? found (isFile_withModified e fs.now) m
  · rfl

@[simp] theorem kind?_setMode (fs : FileSystem) (l m : Location) (mode : Nat) : (fs.setMode l mode).kind? m = fs.kind? m := by
  unfold setMode
  split
  · rename_i e found
    exact kind?_set_of_get? found (isFile_withMode e mode) m
  · rfl

@[simp] theorem kind?_setModified (fs : FileSystem) (l m : Location) (modified : Nat) :
    (fs.setModified l modified).kind? m = fs.kind? m := by
  unfold setModified
  split
  · rename_i e found
    exact kind?_set_of_get? found (isFile_withModified e modified) m
  · rfl

theorem kind?_erase (fs : FileSystem) {l m : Location} (apart : ¬ l <+: m) : (fs.erase l).kind? m = fs.kind? m := by
  unfold kind?
  rw [get?_erase, if_neg (fun below => apart (List.isPrefixOf_iff_prefix.1 below))]

theorem kind?_writeAt {fs written : FileSystem} {l m : Location} {c : Contents} (ok : fs.writeAt l c = .ok written)
    (ne : m ≠ l) : written.kind? m = fs.kind? m := by
  unfold writeAt at ok
  split at ok
  · cases ok
  · cases ok
    exact kind?_set_of_ne fs _ ne
  · cases ok
    rw [kind?_touch, kind?_set_of_ne fs _ ne]

theorem kind?_remove (fs : FileSystem) {l m : Location} (apart : ¬ l <+: m) : (fs.remove l).kind? m = fs.kind? m := by
  rw [remove, kind?_touch, kind?_erase fs apart]

/-- What is removed is gone. -/
theorem kind?_remove_below (fs : FileSystem) {l m : Location} (below : l <+: m) : (fs.remove l).kind? m = none := by
  rw [remove, kind?_touch, kind?, get?_erase, if_pos (List.isPrefixOf_iff_prefix.2 below)]
  rfl

theorem kind?_move {fs moved : FileSystem} {source target m : Location} (ok : fs.move source target = .ok moved)
    (apart : ¬ source <+: m) (ne : m ≠ target) : moved.kind? m = fs.kind? m := by
  unfold move at ok
  split at ok
  · cases ok
  · rename_i e _
    split at ok
    · cases ok
    · cases ok
      rw [kind?_touch, kind?_touch, kind?_set_of_ne _ e ne, kind?_erase fs apart]

/-- What is moved is no longer where it was. -/
theorem kind?_move_below {fs moved : FileSystem} {source target m : Location} (ok : fs.move source target = .ok moved)
    (below : source <+: m) (ne : m ≠ target) : moved.kind? m = none := by
  unfold move at ok
  split at ok
  · cases ok
  · rename_i e _
    split at ok
    · cases ok
    · cases ok
      rw [kind?_touch, kind?_touch, kind?_set_of_ne _ e ne, kind?, get?_erase,
        if_pos (List.isPrefixOf_iff_prefix.2 below)]
      rfl

theorem kind?_addDirectory (fs : FileSystem) {l m : Location} (ne : m ≠ l) :
    (fs.addDirectory l).kind? m = fs.kind? m := by
  rw [addDirectory, kind?_touch, kind?_set_of_ne fs _ ne]

/-- Directories are made above the last one only. -/
theorem kind?_makeBelow {m : Location} (names : List Text) :
    ∀ {fs made : FileSystem} {here : Location}, ¬ m <+: here ++ names →
      fs.makeBelow here names = .ok made → made.kind? m = fs.kind? m := by
  induction names with
  | nil =>
    intro fs made here _ ok
    cases ok
    rfl
  | cons name names ih =>
    intro fs made here aside ok
    rw [List.append_cons] at aside
    unfold makeBelow at ok
    split at ok
    · exact ih aside ok
    · cases ok
    · refine (ih aside ok).trans (kind?_addDirectory fs ?_)
      rintro rfl
      exact aside (List.prefix_append ..)

/-- Making directories leaves what is there where it is. -/
theorem kind?_makeBelow_of_some {m : Location} {k : Bool} (names : List Text) :
    ∀ {fs made : FileSystem} {here : Location}, fs.makeBelow here names = .ok made →
      fs.kind? m = some k → made.kind? m = some k := by
  induction names with
  | nil =>
    intro fs made here ok was
    cases ok
    exact was
  | cons name names ih =>
    intro fs made here ok was
    unfold makeBelow at ok
    split at ok
    · exact ih ok was
    · cases ok
    · rename_i missing
      refine ih ok ((kind?_addDirectory fs ?_).trans was)
      rintro rfl
      rw [kind?, missing] at was
      cases was

/-- Directories are made where no file stands in the way. -/
theorem exists_makeBelow (names : List Text) :
    ∀ {fs : FileSystem} {here : Location}, (∀ m, m ≠ [] → m <+: names → fs.kind? (here ++ m) ≠ some true) →
      ∃ made, fs.makeBelow here names = .ok made ∧ ∀ m, m ≠ [] → m <+: names → made.kind? (here ++ m) = some false := by
  induction names with
  | nil =>
    intro fs here _
    exact ⟨fs, rfl, fun m ne below => absurd (List.prefix_nil.1 below) ne⟩
  | cons name names ih =>
    intro fs here clear
    have first := clear [name] (List.cons_ne_nil _ _) (List.prefix_append [name] names)
    -- A file system with a directory of the first name, from which the others are made.
    have further : ∀ base : FileSystem, base.makeBelow (here ++ [name]) names = fs.makeBelow here (name :: names) →
        base.kind? (here ++ [name]) = some false →
        (∀ m, m ≠ here ++ [name] → base.kind? m = fs.kind? m) →
        ∃ made, fs.makeBelow here (name :: names) = .ok made ∧
          ∀ m, m ≠ [] → m <+: name :: names → made.kind? (here ++ m) = some false := by
      intro base same dir others
      obtain ⟨made, ok, dirs⟩ := @ih base (here ++ [name]) fun m ne below => by
        rw [others _ fun eq => ne (List.append_right_eq_self.1 eq), ← List.append_cons]
        exact clear (name :: m) (List.cons_ne_nil _ _) (List.cons_prefix_cons.2 ⟨rfl, below⟩)
      refine ⟨made, same ▸ ok, fun m ne below => ?_⟩
      cases m with
      | nil => exact absurd rfl ne
      | cons name' m =>
        obtain ⟨rfl, further⟩ := List.cons_prefix_cons.1 below
        by_cases last : m = []
        · subst last
          exact kind?_makeBelow_of_some names ok dir
        · rw [List.append_cons]
          exact dirs m last further
    cases found : fs.get? (here ++ [name]) with
    | none =>
      refine further (fs.addDirectory (here ++ [name])) ?_ ?_ fun m ne => kind?_addDirectory fs ne
      · rw [makeBelow, found]
      · rw [addDirectory, kind?_touch, kind?_set, if_pos rfl]
        rfl
    | some e =>
      cases e with
      | file _ _ _ =>
        refine absurd ?_ first
        rw [kind?, found]
        rfl
      | directory _ _ =>
        refine further fs ?_ ?_ fun _ _ => rfl
        · rw [makeBelow, found]
        · rw [kind?, found]
          rfl

/-- A file is written unless a directory is in its place. -/
theorem exists_writeAt {fs : FileSystem} {l : Location} (c : Contents) (clear : fs.kind? l ≠ some false) :
    ∃ written, fs.writeAt l c = .ok written ∧ written.kind? l = some true := by
  unfold writeAt
  cases found : fs.get? l with
  | none => exact ⟨_, rfl, by rw [kind?_touch, kind?_set, if_pos rfl]; rfl⟩
  | some e =>
    cases e with
    | file _ mode _ => exact ⟨_, rfl, by rw [kind?_set, if_pos rfl]; rfl⟩
    | directory _ _ =>
      refine absurd ?_ clear
      rw [kind?, found]
      rfl

/-- A file is moved unless a directory is where it goes. -/
theorem exists_move {fs : FileSystem} {source target : Location} (isFile : fs.kind? source = some true)
    (clear : fs.kind? target ≠ some false) :
    ∃ moved, fs.move source target = .ok moved ∧
      ∀ m, moved.kind? m = if m = target then some true else if source <+: m then none else fs.kind? m := by
  obtain ⟨e, found, isFile⟩ := Option.map_eq_some_iff.1 isFile
  have noDir : fs.isDirAt target = false := by
    rw [isDirAt_eq_kind?]
    exact beq_eq_false_iff_ne.2 clear
  rw [move, found]
  dsimp only
  rw [noDir]
  refine ⟨_, rfl, fun m => ?_⟩
  rw [kind?_touch, kind?_touch, kind?_set, isFile]
  split
  · rfl
  · split
    · rename_i below
      rw [kind?, get?_erase, if_pos (List.isPrefixOf_iff_prefix.2 below)]
      rfl
    · rename_i apart
      exact kind?_erase fs apart

/-! ## Permissions -/

def mode? (fs : FileSystem) (l : Location) : Option Nat := (fs.get? l).map (·.mode)

theorem mode?_set_of_ne (fs : FileSystem) {l m : Location} (e : Entry) (ne : m ≠ l) :
    (fs.set l e).mode? m = fs.mode? m := by
  rw [mode?, get?_set, if_neg ne, mode?]

@[simp] theorem mode?_touch (fs : FileSystem) (l m : Location) : (fs.touch l).mode? m = fs.mode? m := by
  unfold touch
  split
  · rename_i e found
    by_cases same : m = l
    · subst same
      rw [mode?, mode?, get?_set, if_pos rfl, found]
      cases e <;> rfl
    · exact mode?_set_of_ne fs _ same
  · rfl

theorem mode?_setMode (fs : FileSystem) {l m : Location} (mode : Nat) (ne : m ≠ l) :
    (fs.setMode l mode).mode? m = fs.mode? m := by
  unfold setMode
  split
  · exact mode?_set_of_ne fs _ ne
  · rfl

theorem mode?_move {fs moved : FileSystem} {source target m : Location} (ok : fs.move source target = .ok moved)
    (apart : ¬ source <+: m) (ne : m ≠ target) : moved.mode? m = fs.mode? m := by
  unfold move at ok
  split at ok
  · cases ok
  · rename_i e _
    split at ok
    · cases ok
    · cases ok
      rw [mode?_touch, mode?_touch, mode?_set_of_ne _ e ne, mode?, get?_erase,
        if_neg (fun below => apart (List.isPrefixOf_iff_prefix.1 below)), mode?]

/-! ## Directories -/

theorem isDirAt_set (fs : FileSystem) (l m : Location) (e : Entry) :
    (fs.set l e).isDirAt m = if m = l then !e.isFile else fs.isDirAt m := by
  unfold isDirAt
  rw [get?_set]
  split <;> rfl

@[simp] theorem isDirAt_touch (fs : FileSystem) (l m : Location) : (fs.touch l).isDirAt m = fs.isDirAt m :=
  isDirAt_congr (kind?_touch fs l m)

@[simp] theorem isDirAt_setMode (fs : FileSystem) (l m : Location) (mode : Nat) :
    (fs.setMode l mode).isDirAt m = fs.isDirAt m :=
  isDirAt_congr (kind?_setMode fs l m mode)

theorem isDirAt_erase (fs : FileSystem) {l m : Location} (apart : ¬ l <+: m) :
    (fs.erase l).isDirAt m = fs.isDirAt m :=
  isDirAt_congr (kind?_erase fs apart)

theorem isDirAt_writeAt {fs written : FileSystem} {l m : Location} {c : Contents} (ok : fs.writeAt l c = .ok written)
    (ne : m ≠ l) : written.isDirAt m = fs.isDirAt m :=
  isDirAt_congr (kind?_writeAt ok ne)

theorem isDirAt_addDirectory (fs : FileSystem) (l : Location) : (fs.addDirectory l).isDirAt l = true := by
  rw [addDirectory, isDirAt_touch, isDirAt_set, if_pos rfl]
  rfl

/-- **Making directories changes no file**, except that the root could be touched if it were one. -/
theorem file?_makeBelow {m : Location} (names : List Text) :
    ∀ {fs made : FileSystem} {here : Location}, fs.isDirAt here = true ∨ m ≠ here →
      fs.makeBelow here names = .ok made → made.file? m = fs.file? m := by
  induction names with
  | nil =>
    intro fs made here _ ok
    cases ok
    rfl
  | cons name names ih =>
    intro fs made here dir ok
    unfold makeBelow at ok
    cases found : fs.get? (here ++ [name]) with
    | none =>
      rw [found] at ok
      have isDir := isDirAt_addDirectory fs (here ++ [name])
      rw [ih (.inl isDir) ok, addDirectory, List.dropLast_concat]
      have stays : (fs.set (here ++ [name]) (.directory newDirectoryMode fs.now)).file? m = fs.file? m := by
        rw [file?_set]
        split
        · rename_i same
          rw [same, file?, found]
          rfl
        · rfl
      rw [file?_touch, stays]
      refine dir.imp_left fun isDir' => ?_
      rw [isDirAt_set, if_neg (fun eq => by simpa using congrArg List.length eq), isDir']
    | some e =>
      rw [found] at ok
      cases e with
      | file _ _ _ => cases ok
      | directory _ _ =>
        exact ih (.inl (by rw [isDirAt, found]; rfl)) ok

theorem isDirAt_makeBelow (names : List Text) :
    ∀ {fs made : FileSystem} {here : Location}, fs.isDirAt here = true ∨ names ≠ [] →
      fs.makeBelow here names = .ok made → made.isDirAt (here ++ names) = true := by
  induction names with
  | nil =>
    intro fs made here dir ok
    cases ok
    rw [List.append_nil]
    exact dir.resolve_right fun ne => ne rfl
  | cons name names ih =>
    intro fs made here _ ok
    unfold makeBelow at ok
    rw [List.append_cons]
    cases found : fs.get? (here ++ [name]) with
    | none =>
      rw [found] at ok
      exact ih (.inl (isDirAt_addDirectory ..)) ok
    | some e =>
      rw [found] at ok
      cases e with
      | file _ _ _ => cases ok
      | directory _ _ => exact ih (.inl (by rw [isDirAt, found]; rfl)) ok

theorem now_makeBelow (names : List Text) :
    ∀ {fs made : FileSystem} {here : Location}, fs.makeBelow here names = .ok made → made.now = fs.now := by
  induction names with
  | nil =>
    intro fs made here ok
    cases ok
    rfl
  | cons name names ih =>
    intro fs made here ok
    unfold makeBelow at ok
    cases found : fs.get? (here ++ [name]) with
    | none =>
      rw [found] at ok
      rw [ih ok, addDirectory, touch]
      split <;> rfl
    | some e =>
      rw [found] at ok
      cases e with
      | file _ _ _ => cases ok
      | directory _ _ => exact ih ok

/-! ## One file -/

/-- Writing a file changes no other one. -/
theorem file?_writeAt {fs written : FileSystem} {l m : Location} {c : Contents} (ok : fs.writeAt l c = .ok written)
    (dir : fs.isDirAt l.dropLast = true) (ne : m ≠ l) : written.file? m = fs.file? m := by
  unfold writeAt at ok
  split at ok
  · cases ok
  · cases ok
    exact file?_set_of_ne fs _ ne
  · cases ok
    rw [file?_touch, file?_set_of_ne fs _ ne]
    by_cases same : l.dropLast = l
    · rw [same]
      exact .inr ne
    · exact .inl (by rw [isDirAt_set, if_neg same, dir])

theorem file?_writeAt_same {fs written : FileSystem} {l : Location} {c : Contents} (ok : fs.writeAt l c = .ok written)
    (ne : l ≠ []) : ∃ mode, written.file? l = some (.file c mode fs.now) := by
  unfold writeAt at ok
  split at ok
  · cases ok
  · rename_i mode _ _
    cases ok
    exact ⟨mode, by rw [file?_set, if_pos rfl]; rfl⟩
  · cases ok
    refine ⟨newFileMode, ?_⟩
    have below : l ≠ l.dropLast := fun eq => ne (by
      have := congrArg List.length eq
      rw [List.length_dropLast] at this
      exact List.length_eq_zero_iff.1 (by omega))
    rw [file?_touch _ (.inr below), file?_set, if_pos rfl]
    rfl

theorem file?_setMode (fs : FileSystem) {l m : Location} (mode : Nat) (ne : m ≠ l) :
    (fs.setMode l mode).file? m = fs.file? m := by
  unfold setMode
  split
  · exact file?_set_of_ne fs _ ne
  · rfl

theorem file?_setMode_same {fs : FileSystem} {l : Location} {c : Contents} {mode modified : Nat} (mode' : Nat)
    (found : fs.file? l = some (.file c mode modified)) :
    (fs.setMode l mode').file? l = some (.file c mode' modified) := by
  obtain ⟨entry, _⟩ := Option.filter_eq_some_iff.1 found
  rw [setMode, entry, file?_set, if_pos rfl]
  rfl

/-! ## Moving and removing within a directory -/

section Within

variable {fs : FileSystem} {dir : Location} (isDir : fs.isDirAt dir = true) {name : Text} {m : Location}
  (apart : ¬ dir ++ [name] <+: m)
include isDir

theorem isDirAt_set_within (name : Text) (e : Entry) : (fs.set (dir ++ [name]) e).isDirAt dir = true := by
  rw [isDirAt_set, if_neg (fun eq => by simpa using congrArg List.length eq), isDir]

theorem isDirAt_erase_within (name : Text) : (fs.erase (dir ++ [name])).isDirAt dir = true := by
  rw [isDirAt_erase, isDir]
  intro below
  have := below.length_le
  rw [List.length_append, List.length_singleton] at this
  omega

include apart

theorem file?_remove_within : (fs.remove (dir ++ [name])).file? m = fs.file? m := by
  rw [remove, List.dropLast_concat, file?_touch _ (.inl (isDirAt_erase_within isDir name)), file?_erase fs apart]

/-- Moving a file changes where it is and where it goes. -/
theorem file?_move_within {moved : FileSystem} {target : Text}
    (ok : fs.move (dir ++ [name]) (dir ++ [target]) = .ok moved) (ne : m ≠ dir ++ [target]) :
    moved.file? m = fs.file? m := by
  unfold move at ok
  split at ok
  · cases ok
  · rename_i e _
    split at ok
    · cases ok
    · cases ok
      rw [List.dropLast_concat, List.dropLast_concat, file?_touch, file?_touch,
        file?_set_of_ne _ e ne, file?_erase fs apart]
      · exact .inl (isDirAt_set_within (isDirAt_erase_within isDir name) target e)
      · exact .inl (by rw [isDirAt_touch]; exact isDirAt_set_within (isDirAt_erase_within isDir name) target e)

omit apart in
theorem file?_move_within_same {moved : FileSystem} {target : Text} {e : Entry}
    (ok : fs.move (dir ++ [name]) (dir ++ [target]) = .ok moved) (found : fs.file? (dir ++ [name]) = some e) :
    moved.file? (dir ++ [target]) = some e := by
  obtain ⟨entry, isFile⟩ := Option.filter_eq_some_iff.1 found
  unfold move at ok
  rw [entry] at ok
  dsimp only at ok
  split at ok
  · cases ok
  · cases ok
    rw [List.dropLast_concat, List.dropLast_concat, file?_touch, file?_touch, file?_set, if_pos rfl]
    · exact Option.filter_eq_some_iff.2 ⟨rfl, isFile⟩
    · exact .inl (isDirAt_set_within (isDirAt_erase_within isDir name) target e)
    · exact .inl (by rw [isDirAt_touch]; exact isDirAt_set_within (isDirAt_erase_within isDir name) target e)

end Within

end FileSystem

end TagTemplate
