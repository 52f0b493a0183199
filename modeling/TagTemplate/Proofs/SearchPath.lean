/-
# Proofs.SearchPath -- what a lookup depends on

Names that can be looked up never lead out of their directory, so the template
that is found lies below a directory of the search path (`of_findIn?`), where the
name leads from there (`file_of_findIn?`), and never is that directory itself
(`Within`).  A name that is empty or absolute or goes up is never found (`Refused`).

Which template is found depends only on where there are files and directories on that
way (`findIn?_along`), and so on those below the directories (`findIn?_congr`).  What
the files hold makes no difference.
-/
import TagTemplate.Proofs.FileSystem
import TagTemplate.SearchPath

namespace TagTemplate

set_option autoImplicit false

namespace FileSystem

variable {fs fs' : FileSystem}

/-- Files and directories are in the same places below a location. -/
def SameBelow (fs fs' : FileSystem) (l : Location) : Prop := ∀ m, l <+: m → fs'.kind? m = fs.kind? m

/-- Files and directories are in the same places on the way from a location down some names. -/
def SameAlong (fs fs' : FileSystem) (l : Location) (names : List Text) : Prop :=
  ∀ m, m <+: names → fs'.kind? (l ++ m) = fs.kind? (l ++ m)

theorem SameBelow.along {l : Location} (same : fs.SameBelow fs' l) (names : List Text) : fs.SameAlong fs' l names :=
  fun m _ => same (l ++ m) (List.prefix_append l m)

theorem SameAlong.isDirAt {l : Location} {names : List Text} (same : fs.SameAlong fs' l names) :
    fs'.isDirAt l = fs.isDirAt l := by
  have here := same [] List.nil_prefix
  rw [List.append_nil] at here
  exact isDirAt_congr here

theorem isIdle_iff (segment : Text) : Path.isIdle segment = true ↔ segment = [] ∨ segment = ['.'] := by
  rw [Path.isIdle, Bool.or_eq_true, List.isEmpty_iff, beq_iff_eq]

/-- A walk that never goes up ends where its names lead. -/
theorem walk_eq {segments : List Text} (down : ['.', '.'] ∉ segments) :
    ∀ {here l : Location}, fs.walk here segments = .ok l → l = here ++ segments.filter (!Path.isIdle ·) := by
  induction segments with
  | nil =>
    intro here l ok
    cases ok
    exact (List.append_nil here).symm
  | cons segment segments ih =>
    intro here l ok
    have ih := @ih fun mem => down (List.mem_cons_of_mem _ mem)
    have noUp : segment ≠ ['.', '.'] := fun eq => down (eq ▸ List.mem_cons_self ..)
    unfold walk at ok
    rw [if_neg noUp] at ok
    split at ok
    · cases ok
    · split at ok
      · rename_i idle
        rw [List.filter_cons_of_neg (by rw [(isIdle_iff _).2 idle]; decide)]
        exact ih ok
      · rename_i leads
        split at ok
        · cases ok
        · split at ok
          · cases ok
          · rw [List.filter_cons_of_pos (by rw [Bool.eq_false_iff.2 (mt (isIdle_iff _).1 leads)]; rfl), List.append_cons]
            exact ih ok

/-- A walk that never goes up asks only what is where on its way. -/
theorem walk_along {segments : List Text} (down : ['.', '.'] ∉ segments) :
    ∀ {here : Location}, fs.SameAlong fs' here (segments.filter (!Path.isIdle ·)) →
      fs'.walk here segments = fs.walk here segments := by
  induction segments with
  | nil => exact fun _ => rfl
  | cons segment segments ih =>
    intro here same
    have ih := @ih fun mem => down (List.mem_cons_of_mem _ mem)
    have noUp : segment ≠ ['.', '.'] := fun eq => down (eq ▸ List.mem_cons_self ..)
    unfold walk
    rw [same.isDirAt, if_neg noUp, if_neg noUp]
    by_cases idle : segment = [] ∨ segment = ['.']
    · rw [List.filter_cons_of_neg (by rw [(isIdle_iff _).2 idle]; decide)] at same
      rw [if_pos idle, if_pos idle, ih same]
    · rw [List.filter_cons_of_pos (by rw [Bool.eq_false_iff.2 (mt (isIdle_iff _).1 idle)]; rfl)] at same
      have there : (fs'.get? (here ++ [segment])).isNone = (fs.get? (here ++ [segment])).isNone := by
        have kinds := same [segment] (List.prefix_append [segment] _)
        unfold kind? at kinds
        simpa using congrArg Option.isNone kinds
      have further : fs.SameAlong fs' (here ++ [segment]) (segments.filter (!Path.isIdle ·)) := by
        intro m below
        rw [← List.append_cons]
        exact same (segment :: m) ((List.cons_prefix_cons).2 ⟨rfl, below⟩)
      rw [if_neg idle, if_neg idle, there, ih further]

end FileSystem

theorem Path.segments_ne_nil (path : Text) : Path.segments path ≠ [] := by
  cases path with
  | nil => simp [segments]
  | cons c path =>
    unfold segments
    split
    · simp
    · split <;> simp

def Path.names (path : Text) : List Text := (Path.segments path).filter (!Path.isIdle ·)

namespace SearchPath

variable {fs fs' : FileSystem}

theorem not_mem_segments_of_isContained {name : Text} (contained : Path.isContained name = true) :
    ['.', '.'] ∉ Path.segments name := by
  intro mem
  have none := (Bool.and_eq_true_iff.1 contained).2
  rw [List.contains_iff_mem.2 mem] at none
  cases none

/-- What is found goes by the name, and is where the name leads from the directory. -/
theorem of_inDirectory? {name : Text} (contained : Path.isContained name = true) {dir : Location} {t : Template}
    (found : inDirectory? fs name dir = some t) :
    t = ⟨name, dir, dir ++ Path.names name⟩ ∧ fs.isFileAt t.file = true := by
  unfold inDirectory? at found
  split at found
  · cases found
  · split at found
    · rename_i file walked
      split at found
      · rename_i isFile
        cases found
        obtain rfl := FileSystem.walk_eq (not_mem_segments_of_isContained contained) walked
        exact ⟨rfl, isFile⟩
      · cases found
    · cases found

theorem inDirectory?_along {name : Text} (contained : Path.isContained name = true) {dir : Location}
    (same : fs.SameAlong fs' dir (Path.names name)) : inDirectory? fs' name dir = inDirectory? fs name dir := by
  have down := not_mem_segments_of_isContained contained
  unfold inDirectory?
  rw [FileSystem.walk_along down same]
  cases walked : fs.walk dir (Path.segments name) with
  | error _ => rfl
  | ok file =>
    obtain rfl := FileSystem.walk_eq down walked
    have isFile : fs'.isFileAt (dir ++ Path.names name) = fs.isFileAt (dir ++ Path.names name) := by
      rw [FileSystem.isFileAt_eq_kind?, FileSystem.isFileAt_eq_kind?, same _ (List.prefix_refl _)]
    rw [Path.names] at isFile
    simp only [isFile]

/-- A walk asks first whether it starts from a directory. -/
theorem isDirAt_of_walk {segments : List Text} (nonempty : segments ≠ []) {here l : Location}
    (ok : fs.walk here segments = .ok l) : fs.isDirAt here = true := by
  cases segments with
  | nil => exact absurd rfl nonempty
  | cons segment segments =>
    unfold FileSystem.walk at ok
    split at ok
    · cases ok
    · rename_i isDir
      simpa using isDir

/-- A name leads to a file only if it leads down at all. -/
theorem names_ne_nil_of_inDirectory? {name : Text} (contained : Path.isContained name = true) {dir : Location}
    {t : Template} (found : inDirectory? fs name dir = some t) : Path.names name ≠ [] := by
  obtain ⟨rfl, isFile⟩ := of_inDirectory? contained found
  intro none
  simp only [none, List.append_nil] at isFile
  unfold inDirectory? at found
  split at found
  · cases found
  · split at found
    · rename_i file walked
      have isDir := isDirAt_of_walk (Path.segments_ne_nil name) walked
      rw [FileSystem.isDirAt_eq_kind?, beq_iff_eq] at isDir
      rw [FileSystem.isFileAt_eq_kind?, isDir] at isFile
      cases isFile
    · cases found

/-- **What is found** goes by the name, and is where the name leads from a directory of the search path. -/
theorem file_of_findIn? {name : Text} {dirs : List Location} {t : Template} (found : findIn? fs name dirs = some t) :
    ∃ dir ∈ dirs, t = ⟨name, dir, dir ++ Path.names name⟩ ∧ fs.isFileAt t.file = true := by
  unfold findIn? at found
  split at found
  · rename_i ok
    obtain ⟨dir, mem, found⟩ := List.exists_of_findSome?_eq_some found
    exact ⟨dir, mem, of_inDirectory? (Bool.and_eq_true_iff.1 ok).1 found⟩
  · cases found

/-- **A template lies below a directory of the search path.** -/
theorem of_findIn? {name : Text} {dirs : List Location} {t : Template} (found : findIn? fs name dirs = some t) :
    t.dir ∈ dirs ∧ t.dir <+: t.file ∧ fs.isFileAt t.file = true := by
  obtain ⟨dir, mem, rfl, isFile⟩ := file_of_findIn? found
  exact ⟨mem, List.prefix_append .., isFile⟩

/-- A template lies strictly below the directory it was found in, which is one of some directories. -/
structure Within (dirs : List Location) (t : Template) : Prop where
  dir : t.dir ∈ dirs
  below : t.dir <+: t.file
  strict : t.file ≠ t.dir

theorem within_of_findIn? {name : Text} {dirs : List Location} {t : Template} (found : findIn? fs name dirs = some t) :
    Within dirs t := by
  have ⟨mem, below, _⟩ := of_findIn? found
  refine ⟨mem, below, ?_⟩
  unfold findIn? at found
  split at found
  · rename_i ok
    have contained := (Bool.and_eq_true_iff.1 ok).1
    obtain ⟨dir, -, found⟩ := List.exists_of_findSome?_eq_some found
    have down := names_ne_nil_of_inDirectory? contained found
    obtain ⟨rfl, -⟩ := of_inDirectory? contained found
    simpa using down
  · cases found

/-- A name that never names a template: it is empty or absolute, or goes up somewhere. -/
def Refused (name : Text) : Prop := name = [] ∨ Path.isAbsolute name = true ∨ ['.', '.'] ∈ Path.segments name

instance (name : Text) : Decidable (Refused name) := inferInstanceAs (Decidable (_ ∨ _ ∨ _))

theorem refused_iff (name : Text) : Refused name ↔ Path.isContained name = false := by
  unfold Refused Path.isContained
  cases isAbsolute : Path.isAbsolute name <;> simp [Decidable.or_iff_not_imp_left]

theorem findIn?_of_refused {name : Text} (refused : Refused name) (fs : FileSystem) (dirs : List Location) :
    findIn? fs name dirs = none := by
  unfold findIn?
  rw [(refused_iff name).1 refused]
  rfl

/-- **Lookups depend on what is where on the way alone.** -/
theorem findIn?_along (name : Text) {dirs : List Location} (same : ∀ dir ∈ dirs, fs.SameAlong fs' dir (Path.names name)) :
    findIn? fs' name dirs = findIn? fs name dirs := by
  unfold findIn?
  split
  · rename_i ok
    induction dirs with
    | nil => rfl
    | cons dir dirs ih =>
      rw [List.findSome?_cons, List.findSome?_cons, ih fun dir mem => same dir (List.mem_cons_of_mem _ mem),
        inDirectory?_along (Bool.and_eq_true_iff.1 ok).1 (same dir (List.mem_cons_self ..))]
  · rfl

theorem findIn?_congr (name : Text) {dirs : List Location} (same : ∀ dir ∈ dirs, fs.SameBelow fs' dir) :
    findIn? fs' name dirs = findIn? fs name dirs :=
  findIn?_along name fun dir mem => (same dir mem).along _

theorem find?_congr {sp : SearchPath} (same : ∀ dir ∈ sp.dirs, fs.SameBelow fs' dir) (name : Text) :
    sp.find? fs' name = sp.find? fs name :=
  findIn?_congr name same

theorem of_after? {sp : SearchPath} {dir : Location} {rest : List Location} (after : sp.after? dir = some rest) :
    dir ∈ sp.dirs ∧ rest ⊆ sp.dirs := by
  unfold after? at after
  split at after
  · cases after
  · rename_i first others eq
    cases after
    have suffix : first :: rest <:+ sp.dirs := eq ▸ List.dropWhile_suffix _
    have head : (first != dir) = false := by
      have := List.head?_dropWhile_not (· != dir) sp.dirs
      rw [eq] at this
      simpa using this
    obtain rfl : first = dir := by simpa using head
    exact ⟨suffix.subset (List.mem_cons_self ..), fun l mem => suffix.subset (List.mem_cons_of_mem _ mem)⟩

theorem findAfter?_along {sp : SearchPath} {name : Text}
    (same : ∀ dir ∈ sp.dirs, fs.SameAlong fs' dir (Path.names name)) (dir : Location) :
    sp.findAfter? fs' dir name = sp.findAfter? fs dir name := by
  unfold findAfter?
  cases after : sp.after? dir with
  | none => simp
  | some rest =>
    obtain ⟨mem, sub⟩ := of_after? after
    rw [(same dir mem).isDirAt, Option.bind_some, Option.bind_some,
      findIn?_along name fun dir mem => same dir (sub mem)]

theorem findAfter?_congr {sp : SearchPath} (same : ∀ dir ∈ sp.dirs, fs.SameBelow fs' dir) (dir : Location)
    (name : Text) : sp.findAfter? fs' dir name = sp.findAfter? fs dir name :=
  findAfter?_along (fun dir mem => (same dir mem).along _) dir

theorem file_of_findAfter? {sp : SearchPath} {dir : Location} {name : Text} {t : Template}
    (found : sp.findAfter? fs dir name = some t) :
    ∃ dir ∈ sp.dirs, t = ⟨name, dir, dir ++ Path.names name⟩ ∧ fs.isFileAt t.file = true := by
  unfold findAfter? at found
  split at found
  · obtain ⟨rest, after, found⟩ := Option.bind_eq_some_iff.1 found
    obtain ⟨dir, mem, eq⟩ := file_of_findIn? found
    exact ⟨dir, (of_after? after).2 mem, eq⟩
  · cases found

theorem within_of_findAfter? {sp : SearchPath} {dir : Location} {name : Text} {t : Template}
    (found : sp.findAfter? fs dir name = some t) : Within sp.dirs t := by
  unfold findAfter? at found
  split at found
  · obtain ⟨rest, after, found⟩ := Option.bind_eq_some_iff.1 found
    have within := within_of_findIn? found
    exact { within with dir := (of_after? after).2 within.dir }
  · cases found

theorem findAfter?_of_refused {name : Text} (refused : Refused name) (sp : SearchPath) (fs : FileSystem)
    (dir : Location) : sp.findAfter? fs dir name = none := by
  unfold findAfter?
  split
  · cases sp.after? dir with
    | none => rfl
    | some rest => exact findIn?_of_refused refused fs rest
  · rfl

theorem of_findAfter? {sp : SearchPath} {dir : Location} {name : Text} {t : Template}
    (found : sp.findAfter? fs dir name = some t) :
    t.dir ∈ sp.dirs ∧ t.dir <+: t.file ∧ fs.isFileAt t.file = true := by
  obtain ⟨dir, mem, rfl, isFile⟩ := file_of_findAfter? found
  exact ⟨mem, List.prefix_append .., isFile⟩

end SearchPath

end TagTemplate
