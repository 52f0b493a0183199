/-
# Proofs.FileSystem.Canonical -- the one written form of a directory

A directory can be named in many ways.  The location that a path comes down to has
names only that lead down, and lies below directories (`Canonical`): a walk goes down by
such a name or stays above (`canonical_of_walk`).  So the written form of the location
names it again (`directory?_written`).

Relative paths start from the working directory, so this asks that the working directory
is canonical itself, as long as it exists.
-/
import TagTemplate.Proofs.SearchPath

namespace TagTemplate

set_option autoImplicit false

open Text

/-! ## Segments -/

namespace Path

theorem segments_cons_of_ne {c : Char} (ne : c ≠ '/') (t : Text) :
    ∃ s ss, segments t = s :: ss ∧ segments (c :: t) = (c :: s) :: ss := by
  cases eq : segments t with
  | nil => exact absurd eq (segments_ne_nil t)
  | cons s ss =>
    refine ⟨s, ss, rfl, ?_⟩
    rw [segments, if_neg ne, eq]

/-- Segments are made of the characters of a path, without the slashes. -/
theorem mem_of_mem_segments {path s : Text} (mem : s ∈ segments path) : ∀ c ∈ s, c ∈ path ∧ c ≠ '/' := by
  induction path generalizing s with
  | nil =>
    intro c inside
    rw [List.mem_singleton.1 mem] at inside
    cases inside
  | cons d path ih =>
    by_cases slash : d = '/'
    · rw [segments, if_pos slash] at mem
      rcases List.mem_cons.1 mem with rfl | mem
      · exact List.forall_mem_nil _
      · exact fun c inside => (ih mem c inside).imp_left (List.mem_cons_of_mem d)
    · obtain ⟨first, rest, eq, eq'⟩ := segments_cons_of_ne slash path
      rw [eq'] at mem
      rcases List.mem_cons.1 mem with rfl | mem
      · intro c inside
        rcases List.mem_cons.1 inside with rfl | inside
        · exact ⟨List.mem_cons_self .., slash⟩
        · exact (ih (eq ▸ List.mem_cons_self ..) c inside).imp_left (List.mem_cons_of_mem d)
      · exact fun c inside => (ih (eq ▸ List.mem_cons_of_mem _ mem) c inside).imp_left (List.mem_cons_of_mem d)

theorem segments_append_slash {s : Text} (plain : '/' ∉ s) (t : Text) : segments (s ++ '/' :: t) = s :: segments t := by
  induction s with
  | nil => rfl
  | cons c s ih =>
    have ne : c ≠ '/' := fun eq => plain (eq ▸ List.mem_cons_self ..)
    rw [List.cons_append, segments, if_neg ne, ih fun mem => plain (List.mem_cons_of_mem c mem)]

theorem segments_of_not_mem {s : Text} (plain : '/' ∉ s) : segments s = [s] := by
  induction s with
  | nil => rfl
  | cons c s ih =>
    have ne : c ≠ '/' := fun eq => plain (eq ▸ List.mem_cons_self ..)
    rw [segments, if_neg ne, ih fun mem => plain (List.mem_cons_of_mem c mem)]

/-- Names with slashes before them are the segments of what they make up. -/
theorem segments_flatMap {names : List Text} (plain : ∀ name ∈ names, '/' ∉ name) {s : Text} (first : '/' ∉ s) :
    segments (s ++ names.flatMap ('/' :: ·)) = s :: names := by
  induction names generalizing s with
  | nil => rw [List.flatMap_nil, List.append_nil, segments_of_not_mem first]
  | cons name names ih =>
    rw [List.flatMap_cons, List.cons_append, segments_append_slash first,
      ih (fun name mem => plain name (List.mem_cons_of_mem _ mem)) (plain name (List.mem_cons_self ..))]

end Path

namespace FileSystem

variable {fs : FileSystem}

/-! ## Canonical locations -/

/-- A name that leads down, as long as there is something of that name. -/
structure LeadsDown (name : Text) : Prop where
  named : ¬ (name = [] ∨ name = ['.'])
  down : name ≠ ['.', '.']
  short : size name ≤ maxName
  noSlash : '/' ∉ name
  noNul : '\x00' ∉ name

/-- A location of names that lead down, below directories. -/
structure Canonical (fs : FileSystem) (l : Location) : Prop where
  names : ∀ name ∈ l, LeadsDown name
  above : ∀ m, m <+: l → m ≠ l → fs.isDirAt m = true

theorem canonical_root (fs : FileSystem) : fs.Canonical [] where
  names := nofun
  above _ prefix_ ne := absurd (List.prefix_nil.1 prefix_) ne

theorem Canonical.dropLast {l : Location} (canonical : fs.Canonical l) : fs.Canonical l.dropLast where
  names name mem := canonical.names name (List.dropLast_subset l mem)
  above m above ne := by
    refine canonical.above m (above.trans (List.dropLast_prefix l)) ?_
    rintro rfl
    exact ne (above.eq_of_length_le (by rw [List.length_dropLast]; omega))

theorem Canonical.concat {l : Location} (canonical : fs.Canonical l) (isDir : fs.isDirAt l = true) {name : Text}
    (leads : LeadsDown name) : fs.Canonical (l ++ [name]) where
  names name' mem := by
    rcases List.mem_append.1 mem with mem | mem
    · exact canonical.names name' mem
    · exact List.mem_singleton.1 mem ▸ leads
  above m above ne := by
    rcases List.prefix_concat_iff.1 above with rfl | above
    · exact absurd rfl ne
    · by_cases same : m = l
      · exact same ▸ isDir
      · exact canonical.above m above same

/-- **A walk from a canonical location ends at one.** -/
theorem canonical_of_walk {segments : List Text} (plain : ∀ s ∈ segments, '/' ∉ s ∧ '\x00' ∉ s) :
    ∀ {here l : Location}, fs.Canonical here → fs.walk here segments = .ok l → fs.Canonical l := by
  induction segments with
  | nil =>
    rintro here l canonical ⟨⟩
    exact canonical
  | cons s segments ih =>
    intro here l canonical walks
    have ih := @ih fun s mem => plain s (List.mem_cons_of_mem _ mem)
    unfold walk at walks
    split at walks
    · cases walks
    rename_i isDir
    split at walks
    · exact ih canonical walks
    rename_i named
    split at walks
    · exact ih canonical.dropLast walks
    rename_i down
    split at walks
    · cases walks
    rename_i short
    split at walks
    · cases walks
    obtain ⟨noSlash, noNul⟩ := plain s (List.mem_cons_self ..)
    exact ih (canonical.concat (by simpa using isDir) ⟨named, down, Nat.le_of_not_lt short, noSlash, noNul⟩) walks

/-- A walk goes down by names that lead down, from directory to directory. -/
theorem walk_down (names : List Text) : ∀ {here : Location}, (∀ name ∈ names, LeadsDown name) →
    (∀ m, m <+: names → fs.isDirAt (here ++ m) = true) → fs.walk here names = .ok (here ++ names) := by
  induction names with
  | nil =>
    intro here _ _
    rw [List.append_nil]
    rfl
  | cons name names ih =>
    intro here leads dirs
    have here_dir : fs.isDirAt here = true := by simpa using dirs [] List.nil_prefix
    have next_dir : fs.isDirAt (here ++ [name]) = true := dirs [name] (List.prefix_append [name] names)
    have there : (fs.get? (here ++ [name])).isNone = false := by
      cases found : fs.get? (here ++ [name]) with
      | none =>
        rw [isDirAt, found] at next_dir
        cases next_dir
      | some _ => rfl
    obtain ⟨named, down, short, -, -⟩ := leads name (List.mem_cons_self ..)
    rw [walk, here_dir, if_neg (by decide), if_neg named, if_neg down, if_neg (Nat.not_lt.2 short), there,
      if_neg (by decide), List.append_cons here name names]
    refine ih (fun name mem => leads name (List.mem_cons_of_mem _ mem)) fun m below => ?_
    rw [← List.append_cons]
    exact dirs (name :: m) (List.cons_prefix_cons.2 ⟨rfl, below⟩)

/-! ## Directories -/

theorem exists_of_directory? {path : Text} {l : Location} (named : fs.directory? path = some l) :
    fs.resolve path = .ok l ∧ fs.isDirAt l = true := by
  unfold directory? at named
  split at named
  · rename_i l' resolved
    split at named
    · rename_i isDir
      cases named
      exact ⟨resolved, isDir⟩
    · cases named
  · cases named

/-- A canonical directory is named by its written form. -/
theorem Canonical.directory?_written {l : Location} (canonical : fs.Canonical l) (isDir : fs.isDirAt l = true) :
    fs.directory? l.written = some l := by
  have dirs : ∀ m, m <+: l → fs.isDirAt ([] ++ m) = true := by
    intro m above
    by_cases same : m = l
    · exact same ▸ isDir
    · exact canonical.above m above same
  have root : fs.isDirAt [] = true := dirs [] List.nil_prefix
  have walks : fs.walk [] (Path.segments l.written) = .ok l := by
    cases l with
    | nil =>
      show fs.walk [] [[], []] = .ok []
      simp [walk, root]
    | cons name names =>
      have segments : Path.segments (Location.written (name :: names)) = [] :: name :: names :=
        Path.segments_flatMap (s := []) (fun n mem => (canonical.names n mem).noSlash) nofun
      rw [segments, walk, root, if_neg (by decide), if_pos (.inl rfl)]
      exact walk_down _ canonical.names dirs
  have noNul : l.written.contains '\x00' = false := by
    cases l with
    | nil => rfl
    | cons name names =>
      rw [Bool.eq_false_iff]
      intro mem
      obtain ⟨n, inside, mem⟩ := List.mem_flatMap.1 (List.contains_iff_mem.1 mem)
      rcases List.mem_cons.1 mem with slash | mem
      · cases slash
      · exact (canonical.names n inside).noNul mem
  have absolute : Path.isAbsolute l.written = true ∧ l.written.isEmpty = false := by
    cases l <;> exact ⟨rfl, rfl⟩
  rw [directory?, resolve, absolute.2, if_neg (by decide), noNul, if_neg (by decide), startOf, absolute.1, if_pos rfl,
    walks]
  exact if_pos isDir

theorem walk_of_resolve {path : Text} {l : Location} (resolved : fs.resolve path = .ok l) :
    '\x00' ∉ path ∧ fs.walk (fs.startOf path) (Path.segments path) = .ok l := by
  unfold resolve at resolved
  split at resolved
  · cases resolved
  split at resolved
  · cases resolved
  rename_i noNul
  exact ⟨fun nul => noNul (List.contains_iff_mem.2 nul), resolved⟩

theorem canonical_of_resolve {path : Text} {l : Location} (start : fs.Canonical (fs.startOf path))
    (resolved : fs.resolve path = .ok l) : fs.Canonical l := by
  obtain ⟨noNul, walks⟩ := walk_of_resolve resolved
  refine canonical_of_walk (fun s mem => ⟨fun slash => ?_, fun nul => noNul ?_⟩) start walks
  · exact (Path.mem_of_mem_segments mem _ slash).2 rfl
  · exact (Path.mem_of_mem_segments mem _ nul).1

/-- The working directory is canonical if its written form names it. -/
theorem canonical_of_written {l : Location} (named : fs.directory? l.written = some l) : fs.Canonical l := by
  refine canonical_of_resolve ?_ (exists_of_directory? named).1
  have absolute : Path.isAbsolute l.written = true := by cases l <;> rfl
  rw [startOf, absolute]
  exact canonical_root fs

/-- **What names a directory comes down to a location whose written form names it again.** -/
theorem directory?_written (work : fs.isDirAt fs.workDir = true → fs.directory? fs.workDir.written = some fs.workDir)
    {path : Text} {l : Location} (named : fs.directory? path = some l) : fs.directory? l.written = some l := by
  obtain ⟨resolved, isDir⟩ := exists_of_directory? named
  refine Canonical.directory?_written (canonical_of_resolve ?_ resolved) isDir
  by_cases absolute : Path.isAbsolute path = true
  · rw [startOf, if_pos absolute]
    exact canonical_root fs
  · rw [startOf, if_neg absolute]
    have walks := (walk_of_resolve resolved).2
    rw [startOf, if_neg absolute] at walks
    exact canonical_of_written (work (SearchPath.isDirAt_of_walk (Path.segments_ne_nil path) walks))

end FileSystem

end TagTemplate
