/-
# Proofs.SearchPath.Order -- a search path is an ordered set of directories

Directories are added to a search path one at a time (`addOnce`).  All of them together
come behind what is there, each where it comes first and none that is there already
(`foldl_addOnce`).  With that each of the three changes of a search path is told in one
go (`Change.onto`), and so is every run of changes.

A lookup goes from directory to directory (`findIn?_cons`).  No directory is in a search
path twice (`Built.nodup`): a lookup after one of them looks in those that come behind its
only place (`findAfter?_of_split`).
-/
import Mathlib.Data.List.Nodup
import TagTemplate.Proofs.FileSystem.Canonical

namespace TagTemplate

set_option autoImplicit false

/-! ## Lists without repetitions -/

/-- What is left out of a list makes no difference to which of the others are repetitions. -/
theorem eraseDups_filter {α : Type} [BEq α] [LawfulBEq α] (p : α → Bool) (l : List α) :
    (l.filter p).eraseDups = l.eraseDups.filter p := by
  match l with
  | [] => rfl
  | a :: l =>
    have shorter : (l.filter fun b => !b == a).length < (a :: l).length :=
      Nat.lt_succ_of_le (List.length_filter_le ..)
    have ih := eraseDups_filter p (l.filter fun b => !b == a)
    rw [List.eraseDups_cons]
    cases keeps : p a with
    | true =>
      rw [List.filter_cons_of_pos keeps, List.filter_cons_of_pos keeps, List.eraseDups_cons, ← ih, List.filter_comm]
    | false =>
      have others : (l.filter fun b => !b == a).filter p = l.filter p := by
        rw [List.filter_filter]
        refine List.filter_congr fun b _ => ?_
        by_cases same : b = a
        · rw [same, keeps, Bool.false_and]
        · rw [beq_eq_false_iff_ne.2 same, Bool.not_false, Bool.and_true]
      rw [List.filter_cons_of_neg (by rw [keeps]; decide), List.filter_cons_of_neg (by rw [keeps]; decide), ← ih, others]
termination_by l.length
decreasing_by exact shorter

namespace SearchPath

variable {fs : FileSystem}

theorem nodup_addOnce {ls : List Location} (distinct : ls.Nodup) (l : Location) : (addOnce ls l).Nodup := by
  unfold addOnce
  split
  · exact distinct
  · rename_i absent
    rw [← List.concat_eq_append]
    exact distinct.concat fun mem => absent (List.contains_iff_mem.2 mem)

theorem nodup_foldl_addOnce (ds : List Location) :
    ∀ {ls : List Location}, ls.Nodup → (ds.foldl addOnce ls).Nodup := by
  induction ds with
  | nil => exact id
  | cons d ds ih => exact fun distinct => ih (nodup_addOnce distinct d)

/-- **Locations are added behind those that are there**, each where it comes first. -/
theorem foldl_addOnce (ds : List Location) :
    ∀ ls : List Location, ds.foldl addOnce ls = ls ++ (ds.removeAll ls).eraseDups := by
  induction ds with
  | nil => exact fun ls => (List.append_nil ls).symm
  | cons d ds ih =>
    intro ls
    rw [List.foldl_cons, ih, List.removeAll, List.removeAll]
    cases there : ls.elem d with
    | true =>
      have same : addOnce ls d = ls := if_pos there
      rw [same, List.filter_cons_of_neg (by rw [there]; decide)]
    | false =>
      have behind : addOnce ls d = ls ++ [d] := if_neg (by rw [List.contains, there]; decide)
      have others : (ds.filter fun x => !(ls ++ [d]).elem x) = (ds.filter fun x => !ls.elem x).filter fun x => !x == d := by
        rw [List.filter_filter]
        refine List.filter_congr fun x _ => ?_
        rw [List.elem_eq_contains, List.elem_eq_contains, List.contains_append, Bool.not_or, Bool.and_comm,
          List.contains_cons, List.contains_nil, Bool.or_false]
      rw [behind, List.filter_cons_of_pos (by rw [there]; decide), List.eraseDups_cons, others, List.append_assoc]
      rfl

/-! ## Changes -/

/-- How a search path is changed, with written paths of directories. -/
inductive Change where
  | set (paths : List Text)
  | prepend (paths : List Text)
  | append (paths : List Text)
  deriving DecidableEq, Repr

def change (fs : FileSystem) (sp : SearchPath) : Change → SearchPath
  | .set paths => ofPaths fs paths
  | .prepend paths => sp.prepend fs paths
  | .append paths => sp.append fs paths

def changed (fs : FileSystem) (changes : List Change) : SearchPath := changes.foldl (change fs) {}

/-- What a change makes of a list of directories.  Setting starts anew; what is put in front is taken out of the
rest; of what is put behind only the new ones count. -/
def Change.onto (fs : FileSystem) (dirs : List Location) : Change → List Location
  | .set paths => (directories fs paths).eraseDups
  | .prepend paths => (directories fs paths).eraseDups ++ dirs.removeAll (directories fs paths)
  | .append paths => dirs ++ ((directories fs paths).removeAll dirs).eraseDups

theorem removeAll_nil (ls : List Location) : ls.removeAll [] = ls := List.filter_eq_self.2 fun _ _ => rfl

theorem foldl_addOnce_nil (ds : List Location) : ds.foldl addOnce [] = ds.eraseDups := by
  rw [foldl_addOnce, removeAll_nil, List.nil_append]

theorem dirs_prepend (sp : SearchPath) (fs : FileSystem) (paths : List Text) :
    (sp.prepend fs paths).dirs = (directories fs paths).eraseDups ++ sp.dirs.removeAll (directories fs paths) := by
  show (directories fs paths).foldl addOnce [] ++ _ = _
  rw [foldl_addOnce_nil]
  congr 1
  refine List.filter_congr fun l _ => ?_
  rw [Bool.eq_iff_iff]
  simp [List.mem_eraseDups]

/-- **A change does to the directories what it says.** -/
theorem dirs_change (fs : FileSystem) (sp : SearchPath) (c : Change) : (change fs sp c).dirs = c.onto fs sp.dirs := by
  cases c with
  | set paths => exact foldl_addOnce_nil (directories fs paths)
  | prepend paths => exact dirs_prepend sp fs paths
  | append paths => exact foldl_addOnce (directories fs paths) sp.dirs

theorem nodup_change (fs : FileSystem) {sp : SearchPath} (distinct : sp.dirs.Nodup) (c : Change) :
    (change fs sp c).dirs.Nodup := by
  cases c with
  | set paths => exact nodup_foldl_addOnce _ List.nodup_nil
  | prepend paths =>
    refine List.nodup_append.2 ⟨nodup_foldl_addOnce _ List.nodup_nil, distinct.filter _, ?_⟩
    rintro l front m rest rfl
    exact absurd (List.contains_iff_mem.2 front) (by simpa using (List.mem_filter.1 rest).2)
  | append paths => exact nodup_foldl_addOnce _ distinct

theorem mem_directories {paths : List Text} {l : Location} :
    l ∈ directories fs paths ↔ ∃ path ∈ paths, fs.directory? path = some l :=
  List.mem_filterMap

/-- A change puts in directories that its paths name, and no others. -/
theorem exists_of_mem_change {sp : SearchPath} {c : Change} {l : Location} (mem : l ∈ (change fs sp c).dirs) :
    l ∈ sp.dirs ∨ ∃ path, fs.directory? path = some l := by
  have named {paths : List Text} (mem : l ∈ directories fs paths) : ∃ path, fs.directory? path = some l :=
    (mem_directories.1 mem).imp fun _ => And.right
  rw [dirs_change] at mem
  cases c with
  | set paths => exact .inr (named (List.mem_eraseDups.1 mem))
  | prepend paths =>
    rcases List.mem_append.1 mem with front | rest
    · exact .inr (named (List.mem_eraseDups.1 front))
    · exact .inl (List.mem_of_mem_filter rest)
  | append paths =>
    rcases List.mem_append.1 mem with front | rest
    · exact .inl front
    · exact .inr (named (List.mem_of_mem_filter (List.mem_eraseDups.1 rest)))

/-! ## Runs of changes -/

theorem dirs_changed (fs : FileSystem) (changes : List Change) :
    (changed fs changes).dirs = changes.foldl (Change.onto fs) [] := by
  have run : ∀ sp : SearchPath, (changes.foldl (change fs) sp).dirs = changes.foldl (Change.onto fs) sp.dirs := by
    induction changes with
    | nil => exact fun _ => rfl
    | cons c changes ih =>
      intro sp
      rw [List.foldl_cons, List.foldl_cons, ih, dirs_change]
  exact run {}

/-- A search path that came about by changes, each on the files of its time. -/
inductive Built : SearchPath → Prop where
  | empty : Built {}
  | change {sp : SearchPath} (built : Built sp) (fs : FileSystem) (c : Change) : Built (change fs sp c)

/-- **No directory comes twice**, whatever was changed. -/
theorem Built.nodup {sp : SearchPath} (built : Built sp) : sp.dirs.Nodup := by
  induction built with
  | empty => exact List.nodup_nil
  | change _ fs c ih => exact nodup_change fs ih c

theorem built_changed (fs : FileSystem) (changes : List Change) : Built (changed fs changes) := by
  have run : ∀ sp, Built sp → Built (changes.foldl (change fs) sp) := by
    induction changes with
    | nil => exact fun _ built => built
    | cons c changes ih => exact fun sp built => ih _ (built.change fs c)
  exact run {} .empty

/-- Everything in a search path was named. -/
theorem exists_of_mem_changed {changes : List Change} {l : Location} (mem : l ∈ (changed fs changes).dirs) :
    ∃ path, fs.directory? path = some l := by
  have run : ∀ changes sp, (∀ l ∈ sp.dirs, ∃ path, fs.directory? path = some l) →
      ∀ l ∈ (List.foldl (change fs) sp changes).dirs, ∃ path, fs.directory? path = some l := by
    intro changes
    induction changes with
    | nil => exact fun _ named => named
    | cons c changes ih =>
      intro sp named
      exact ih _ fun l mem => (exists_of_mem_change mem).elim (named l) id
  exact run changes {} nofun l mem

theorem directories_append (fs : FileSystem) (paths paths' : List Text) :
    directories fs (paths ++ paths') = directories fs paths ++ directories fs paths' :=
  List.filterMap_append

/-- Putting some paths in front and then others is putting all of them in front, the others first. -/
theorem prepend_prepend (sp : SearchPath) (fs : FileSystem) (paths paths' : List Text) :
    (sp.prepend fs paths').prepend fs paths = sp.prepend fs (paths ++ paths') := by
  have same : ((sp.prepend fs paths').prepend fs paths).dirs = (sp.prepend fs (paths ++ paths')).dirs := by
    rw [dirs_prepend, dirs_prepend, dirs_prepend, directories_append, List.eraseDups_append, List.append_assoc]
    congr 1
    simp only [List.removeAll, List.filter_append, eraseDups_filter, List.filter_filter]
    congr 1
    refine List.filter_congr fun l _ => ?_
    rw [List.elem_eq_contains, List.elem_eq_contains, List.elem_eq_contains, List.contains_append, Bool.not_or]
  exact congrArg SearchPath.mk same

/-- Putting some paths behind and then others is putting all of them behind. -/
theorem append_append (sp : SearchPath) (fs : FileSystem) (paths paths' : List Text) :
    (sp.append fs paths).append fs paths' = sp.append fs (paths ++ paths') := by
  rw [append, append, append, directories_append, List.foldl_append]

/-! ## Lookups in one directory after the other -/

section Lookups

variable {name : Text}

def templateIn (name : Text) (dir : Location) : Template := ⟨name, dir, dir ++ Path.names name⟩

theorem findIn?_cons (dir : Location) (dirs : List Location) :
    findIn? fs name (dir :: dirs) = (findIn? fs name [dir]).or (findIn? fs name dirs) := by
  unfold findIn?
  split
  · rw [List.findSome?_cons, List.findSome?_singleton]
    cases inDirectory? fs name dir <;> rfl
  · rfl

/-- Nothing is found exactly if no directory has the name. -/
theorem findIn?_eq_none_iff {dirs : List Location} :
    findIn? fs name dirs = none ↔ ∀ dir ∈ dirs, findIn? fs name [dir] = none := by
  induction dirs with
  | nil => simp [findIn?]
  | cons dir dirs ih => rw [findIn?_cons, Option.or_eq_none_iff, List.forall_mem_cons, ih]

theorem findIn?_nil : findIn? fs name [] = none := findIn?_eq_none_iff.2 nofun

theorem findIn?_singleton {dir : Location} {t : Template} (found : findIn? fs name [dir] = some t) :
    t = templateIn name dir := by
  obtain ⟨dir', mem, eq, -⟩ := file_of_findIn? found
  rwa [List.mem_singleton.1 mem] at eq

/-- What is found is found in one of the directories. -/
theorem exists_split_of_findIn? {dirs : List Location} {t : Template} (found : findIn? fs name dirs = some t) :
    ∃ before dir later, dirs = before ++ dir :: later ∧ findIn? fs name [dir] = some (templateIn name dir) ∧
      t = templateIn name dir := by
  induction dirs with
  | nil =>
    rw [findIn?_nil] at found
    cases found
  | cons dir dirs ih =>
    rw [findIn?_cons] at found
    cases here : findIn? fs name [dir] with
    | some t' =>
      rw [here, Option.some_or] at found
      cases found
      obtain rfl := findIn?_singleton here
      exact ⟨[], dir, dirs, rfl, here, rfl⟩
    | none =>
      rw [here, Option.none_or] at found
      obtain ⟨before, dir', later, rfl, there⟩ := ih found
      exact ⟨dir :: before, dir', later, rfl, there⟩

theorem isDirAt_of_findIn? {dir : Location} {t : Template} (found : findIn? fs name [dir] = some t) :
    fs.isDirAt dir = true := by
  unfold findIn? at found
  split at found
  · rw [List.findSome?_singleton] at found
    unfold inDirectory? at found
    split at found
    · cases found
    · split at found
      · rename_i walked
        exact isDirAt_of_walk (Path.segments_ne_nil name) walked
      · cases found
  · cases found

end Lookups

/-! ## Lookups after a directory -/

theorem after?_of_split {before rest : List Location} {dir : Location} (first : dir ∉ before) :
    after? ⟨before ++ dir :: rest⟩ dir = some rest := by
  have others : ∀ l ∈ before, (l != dir) = true := fun l mem => bne_iff_ne.2 fun eq => first (eq ▸ mem)
  have stops : ¬ (dir != dir) = true := by simp
  rw [after?, List.dropWhile_append_of_pos others, List.dropWhile_cons, if_neg stops]

theorem after?_of_not_mem {sp : SearchPath} {dir : Location} (absent : dir ∉ sp.dirs) : sp.after? dir = none := by
  cases after : sp.after? dir with
  | none => rfl
  | some rest => exact absurd (of_after? after).1 absent

/-- **A lookup after a directory** is a lookup in those that come behind it. -/
theorem findAfter?_of_split {sp : SearchPath} {before rest : List Location} {dir : Location}
    (split : sp.dirs = before ++ dir :: rest) (first : dir ∉ before) (isDir : fs.isDirAt dir = true) (name : Text) :
    sp.findAfter? fs dir name = findIn? fs name rest := by
  have behind : sp.after? dir = some rest := by
    rw [show sp = ⟨before ++ dir :: rest⟩ from congrArg SearchPath.mk split, after?_of_split first]
  rw [findAfter?, if_pos isDir, behind, Option.bind_some]

def findAfterPath? (sp : SearchPath) (fs : FileSystem) (path name : Text) : Option Template :=
  (fs.directory? path).bind fun dir => sp.findAfter? fs dir name

/-- What some changes make of an empty search path is an ordered set of directories. -/
structure Ordered (fs : FileSystem) (changes : List Change) : Prop where
  distinct : (changed fs changes).dirs.Nodup
  /-- Everything in it is a directory, and the written form names it. -/
  canonical : ∀ dir ∈ (changed fs changes).dirs, fs.isDirAt dir = true ∧ fs.directory? dir.written = some dir
  told : (changed fs changes).dirs = changes.foldl (Change.onto fs) []
  prepends : ∀ paths paths', ((changed fs changes).prepend fs paths').prepend fs paths
    = (changed fs changes).prepend fs (paths ++ paths')
  appends : ∀ paths paths', ((changed fs changes).append fs paths).append fs paths'
    = (changed fs changes).append fs (paths ++ paths')
  /-- A directory of it has one place, and a lookup after it is one in the directories behind that place. -/
  listed : ∀ path before dir rest, fs.directory? path = some dir → (changed fs changes).dirs = before ++ dir :: rest →
    dir ∉ before ∧ dir ∉ rest ∧
      ∀ name, (changed fs changes).findAfterPath? fs path name = find? ⟨rest⟩ fs name
  /-- After anything else nothing is found. -/
  unlisted : ∀ path, (∀ dir ∈ (changed fs changes).dirs, fs.directory? path ≠ some dir) →
    ∀ name, (changed fs changes).findAfterPath? fs path name = none

/-- **A search path is an ordered set of directories**, whatever changes it has seen. -/
theorem ordered_changed (fs : FileSystem)
    (work : fs.isDirAt fs.workDir = true → fs.directory? fs.workDir.written = some fs.workDir) (changes : List Change) :
    Ordered fs changes where
  distinct := (built_changed fs changes).nodup
  canonical dir mem := by
    obtain ⟨path, named⟩ := exists_of_mem_changed mem
    exact ⟨(FileSystem.exists_of_directory? named).2, FileSystem.directory?_written work named⟩
  told := dirs_changed fs changes
  prepends := prepend_prepend _ fs
  appends := append_append _ fs
  listed path before dir rest named split := by
    have distinct := (built_changed fs changes).nodup
    rw [split] at distinct
    have once := List.nodup_middle.1 distinct
    have absent : dir ∉ before ++ rest := (List.nodup_cons.1 once).1
    refine ⟨fun mem => absent (List.mem_append_left _ mem), fun mem => absent (List.mem_append_right _ mem), fun name => ?_⟩
    rw [findAfterPath?, named, Option.bind_some]
    exact findAfter?_of_split split (fun mem => absent (List.mem_append_left _ mem))
      (FileSystem.exists_of_directory? named).2 name
  unlisted path others name := by
    unfold findAfterPath?
    cases named : fs.directory? path with
    | none => rfl
    | some dir =>
      have absent : dir ∉ (changed fs changes).dirs := fun mem => others dir mem named
      rw [Option.bind_some, findAfter?, after?_of_not_mem absent]
      exact ite_self _

/-- Two themes, one inside of the other, as seen from the outer one. -/
def themes : FileSystem :=
  { FileSystem.empty with
    entries := [([], .directory 0 0), (["t".toList], .directory 0 0), (["t".toList, "s".toList], .directory 0 0),
      (["t".toList, "p".toList], .file (.text []) 0 0)]
    workDir := ["t".toList] }

/-- Changes with several spellings of one directory, a file and a path that leads nowhere. -/
def spellings : List Change :=
  [.append ["s".toList, "p".toList, ".".toList, "/t/s/".toList], .prepend ["../t".toList, "none".toList, "./".toList]]

theorem ordered_themes : (themes.isDirAt themes.workDir = true ∧ (changed themes spellings).dirs
      = [["t".toList], ["t".toList, "s".toList]]) ∧ Ordered themes spellings :=
  ⟨by decide +kernel, ordered_changed themes (fun _ => by decide +kernel) spellings⟩

end SearchPath

end TagTemplate
