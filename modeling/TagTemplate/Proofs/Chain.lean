/-
# Proofs.Chain -- the files of an extends chain

`Follows` says which files a chain consists of, without log, fuel and errors: the
last file extends nothing, and every other one names a target that is looked up,
is not part of the chain yet, and can be read.

A chain is built exactly where there are such files (`ofSource_eq_ok_iff`): no file
comes twice, so the number of entries bounds how many there are and the fuel
always lasts (`length_le_of_follows`).  What a chain is therefore depends on
lookups and on the text of its own files alone (`Follows.transfer`).

All of its files are built into one arena and one block stack, which belong
together at the end (`gathered_of_follows`).
-/
import Mathlib.Data.List.Perm.Subperm
import TagTemplate.Proofs.SearchPath
import TagTemplate.Proofs.Tree.Build

namespace TagTemplate

set_option autoImplicit false

/-! ## Computations with a state that may fail -/

theorem run_bind {ε S α β : Type} (x : ExceptT ε (StateM S) α) (f : α → ExceptT ε (StateM S) β) (s : S) :
    (x >>= f).run s =
      match x.run s with
      | (.ok a, s) => (f a).run s
      | (.error e, s) => (.error e, s) := by
  rw [ExceptT.run_bind]
  show StateT.bind x.run _ s = _
  unfold StateT.bind
  rcases x.run s with ⟨_ | _, _⟩ <;> rfl

theorem run_map {ε S α β : Type} (f : α → β) (x : ExceptT ε (StateM S) α) (s : S) :
    (f <$> x).run s =
      match x.run s with
      | (.ok a, s) => (.ok (f a), s)
      | (.error e, s) => (.error e, s) := by
  rw [← bind_pure_comp, run_bind]
  rfl

theorem run_tryCatch {ε S α : Type} (x : ExceptT ε (StateM S) α) (handle : ε → ExceptT ε (StateM S) α) (s : S) :
    (tryCatch x handle).run s =
      match x.run s with
      | (.ok a, s) => (.ok a, s)
      | (.error e, s) => (handle e).run s := by
  simp only [tryCatch, tryCatchThe, MonadExceptOf.tryCatch, ExceptT.tryCatch, ExceptT.run_mk]
  show StateT.bind x.run _ s = _
  unfold StateT.bind
  rcases x.run s with ⟨_ | _, _⟩ <;> rfl

theorem Logged.run_note (es log : List Event) : (Logged.note es).run log = (.ok (), log ++ es) := rfl

namespace Chain

variable {s : Settings} {fs : FileSystem}

/-! ## Following -/

def target? (s : Settings) (fs : FileSystem) (origin : Option Template) (target : Text) : Option Template :=
  if target = parentSentinel then origin.bind fun t => s.searchPath.findAfter? fs t.dir t.name
  else s.searchPath.find? fs target

/-- The files that extend another one once this one is among them. -/
def visitedBy (c : Chain) (origin : Option Template) : List Location :=
  c.visited ++ (origin.map (·.file)).toList

/-- A chain that is followed from a source on through some further files. -/
inductive Follows (s : Settings) (fs : FileSystem) : Chain → Option Template → Text → List Location → Chain → Prop where
  /-- The source extends nothing. -/
  | last {c : Chain} {origin : Option Template} {source : Text}
      (extendsNone : (buildFile s c origin source).1.extendsTarget = none) :
      Follows s fs c origin source [] (buildFile s c origin source).2
  /-- The source extends a file that is not part of the chain yet. -/
  | next {c chain : Chain} {origin : Option Template} {source further target : Text} {next : Template}
      {files : List Location}
      (extendsTarget : (buildFile s c origin source).1.extendsTarget = some target)
      (found : target? s fs origin target = some next)
      (fresh : next.file ∉ visitedBy c origin)
      (reads : fs.readAt next.file = .ok further)
      (rest : Follows s fs { (buildFile s c origin source).2 with visited := visitedBy c origin } (some next) further
        files chain) :
      Follows s fs c origin source (next.file :: files) chain

theorem run_lookupTarget (s : Settings) (fs : FileSystem) (origin : Option Template) (target : Text) (log : List Event) :
    ∃ log', (lookupTarget s fs origin target).run log = (.ok (target? s fs origin target), log') := by
  unfold lookupTarget target?
  split
  · cases origin with
    | none => exact ⟨log, rfl⟩
    | some t => exact ⟨_, rfl⟩
  · exact ⟨_, rfl⟩

def outcome (s : Settings) (fs : FileSystem) (files : Nat) (c : Chain) (origin : Option Template) (source : Text) :
    Except Error Chain :=
  match (buildFile s c origin source).1.extendsTarget with
  | none => .ok (buildFile s c origin source).2
  | some target =>
    match target? s fs origin target with
    | none => .error (.templateNotFound target)
    | some next =>
      if next.file ∈ visitedBy c origin then .error (.extendsCycle next.file)
      else
        match fs.readAt next.file with
        | .error e => .error (.io e)
        | .ok further =>
          match files with
          | 0 => .error (.extendsCycle next.file)
          | files + 1 =>
            outcome s fs files { (buildFile s c origin source).2 with visited := visitedBy c origin } (some next)
              further

/-- Following a chain comes to the same whatever was logged before. -/
theorem run_follow (files : Nat) (c : Chain) (origin : Option Template) (source : Text) (log : List Event) :
    ((follow s fs files c origin source).run log).1 = outcome s fs files c origin source := by
  unfold follow outcome
  cases extendsTarget : (buildFile s c origin source).1.extendsTarget with
  | none =>
    simp only [run_bind, Logged.run_note, extendsTarget]
    rfl
  | some target =>
    obtain ⟨log', lookup⟩ := run_lookupTarget s fs origin target
      (log ++ (buildFile s c origin source).1.events)
    simp only [run_bind, Logged.run_note, extendsTarget, lookup]
    cases found : target? s fs origin target with
    | none => rfl
    | some next =>
      dsimp only
      by_cases visited : next.file ∈ visitedBy c origin
      · have contains : ((buildFile s c origin source).2.visited ++ (origin.map (·.file)).toList).contains next.file
            = true := List.contains_iff_mem.2 visited
        rw [if_pos visited, if_pos contains]
        rfl
      · have contains : ¬ ((buildFile s c origin source).2.visited ++ (origin.map (·.file)).toList).contains next.file
            = true := fun mem => visited (List.contains_iff_mem.1 mem)
        rw [if_neg visited, if_neg contains]
        cases reads : fs.readAt next.file with
        | error e => rfl
        | ok further =>
          cases files with
          | zero => rfl
          | succ files => exact run_follow files _ (some next) further _

/-! ## A chain is its files -/

theorem follows_of_outcome (files : Nat) {c chain : Chain} {origin : Option Template} {source : Text}
    (ok : outcome s fs files c origin source = .ok chain) : ∃ further, Follows s fs c origin source further chain := by
  unfold outcome at ok
  split at ok
  · rename_i extendsNone
    cases ok
    exact ⟨[], .last extendsNone⟩
  · rename_i target extendsTarget
    split at ok
    · cases ok
    · rename_i next found
      split at ok
      · cases ok
      · rename_i fresh
        split at ok
        · cases ok
        · rename_i text reads
          cases files with
          | zero => cases ok
          | succ files =>
            obtain ⟨further, rest⟩ := follows_of_outcome files ok
            exact ⟨next.file :: further, .next extendsTarget found fresh reads rest⟩

theorem outcome_of_follows {c chain : Chain} {origin : Option Template} {source : Text} {further : List Location}
    (follows : Follows s fs c origin source further chain) {files : Nat} (enough : further.length ≤ files) :
    outcome s fs files c origin source = .ok chain := by
  induction follows generalizing files with
  | last extendsNone =>
    unfold outcome
    rw [extendsNone]
  | next extendsTarget found fresh reads rest ih =>
    cases files with
    | zero => exact absurd enough (Nat.not_succ_le_zero _)
    | succ files =>
      unfold outcome
      simp only [extendsTarget, found, if_neg fresh, reads]
      exact ih (Nat.le_of_succ_le_succ enough)

theorem visitedBy_some (c : Chain) (t : Template) : visitedBy c (some t) = c.visited ++ [t.file] := rfl

theorem nodup_of_follows {c chain : Chain} {origin : Option Template} {source : Text} {further : List Location}
    (follows : Follows s fs c origin source further chain) (distinct : (visitedBy c origin).Nodup) :
    (visitedBy c origin ++ further).Nodup := by
  induction follows with
  | last _ => rwa [List.append_nil]
  | @next c _ origin _ _ _ next _ _ _ fresh _ _ ih =>
    have distinct' : (visitedBy c origin ++ [next.file]).Nodup := by
      refine List.nodup_append.2 ⟨distinct, List.pairwise_singleton .., ?_⟩
      intro file mem file' mem'
      rw [List.mem_singleton.1 mem']
      rintro rfl
      exact fresh mem
    have longer := ih distinct'
    rwa [visitedBy_some, List.append_assoc] at longer

theorem readable_of_follows {c chain : Chain} {origin : Option Template} {source : Text} {further : List Location}
    (follows : Follows s fs c origin source further chain) : ∀ file ∈ further, ∃ t, fs.readAt file = .ok t := by
  induction follows with
  | last _ =>
    intro _ mem
    cases mem
  | next _ _ _ reads _ ih =>
    intro file mem
    rcases List.mem_cons.1 mem with rfl | mem
    · exact ⟨_, reads⟩
    · exact ih file mem

/-- What a file extends depends on what is where below the directories of the search path. -/
theorem target?_congr {fs' : FileSystem} (same : ∀ dir ∈ s.searchPath.dirs, fs.SameBelow fs' dir)
    (origin : Option Template) (target : Text) : target? s fs' origin target = target? s fs origin target := by
  unfold target?
  rw [SearchPath.find?_congr same]
  split
  · congr 1
    funext t
    exact SearchPath.findAfter?_congr same t.dir t.name
  · rfl

theorem of_target? {origin : Option Template} {target : Text} {t : Template}
    (found : target? s fs origin target = some t) : t.dir ∈ s.searchPath.dirs ∧ t.dir <+: t.file := by
  unfold target? at found
  split at found
  · obtain ⟨_, _, found⟩ := Option.bind_eq_some_iff.1 found
    exact (SearchPath.of_findAfter? found).imp_right And.left
  · exact (SearchPath.of_findIn? found).imp_right And.left

/-- The files that a chain is followed to lie below the directories of the search path. -/
theorem below_of_follows {c chain : Chain} {origin : Option Template} {source : Text} {further : List Location}
    (follows : Follows s fs c origin source further chain) :
    ∀ file ∈ further, ∃ dir ∈ s.searchPath.dirs, dir <+: file := by
  induction follows with
  | last _ =>
    intro _ mem
    cases mem
  | @next _ _ _ _ _ _ next _ _ found _ _ _ ih =>
    intro file mem
    rcases List.mem_cons.1 mem with rfl | mem
    · exact ⟨next.dir, of_target? found⟩
    · exact ih file mem

theorem mem_entries_of_readAt {file : Location} {t : Text} (reads : fs.readAt file = .ok t) :
    file ∈ fs.entries.map (·.1) := by
  unfold FileSystem.readAt at reads
  cases found : fs.get? file with
  | none =>
    rw [found] at reads
    cases reads
  | some e => exact List.mem_map_of_mem (FileSystem.mem_entries_of_get? found)

/-- **The fuel of a chain always lasts**: it has at most as many files as there are entries. -/
theorem length_le_of_follows {c chain : Chain} {origin : Option Template} {source : Text} {further : List Location}
    (follows : Follows s fs c origin source further chain) (distinct : (visitedBy c origin).Nodup) :
    further.length ≤ fs.entries.length := by
  have nodup := (List.nodup_append.1 (nodup_of_follows follows distinct)).2.1
  have sub : further ⊆ fs.entries.map (·.1) := fun file mem =>
    have ⟨_, reads⟩ := readable_of_follows follows file mem
    mem_entries_of_readAt reads
  have := (nodup.subperm sub).length_le
  rwa [List.length_map] at this

/-- **A chain is built exactly where it can be followed to its end.** -/
theorem ofSource_eq_ok_iff {origin : Option Template} {source : Text} {log : List Event} {chain : Chain} :
    ((ofSource s fs origin source).run log).1 = .ok chain ↔
      ∃ further, Follows s fs {} origin source further chain := by
  rw [ofSource, run_follow]
  constructor
  · exact follows_of_outcome _
  · rintro ⟨further, follows⟩
    have distinct : (visitedBy {} origin).Nodup := by
      cases origin with
      | none => exact List.nodup_nil
      | some t => exact List.pairwise_singleton ..
    exact outcome_of_follows follows (Nat.le_succ_of_le (length_le_of_follows follows distinct))

/-- **A chain depends on lookups and on the text of its files alone.** -/
theorem Follows.transfer {fs' : FileSystem} {c chain : Chain} {origin : Option Template} {source : Text}
    {further : List Location} (follows : Follows s fs c origin source further chain)
    (lookups : ∀ origin target, target? s fs' origin target = target? s fs origin target)
    (texts : ∀ file ∈ further, ∀ t, fs.readAt file = .ok t → fs'.readAt file = .ok t) :
    Follows s fs' c origin source further chain := by
  induction follows with
  | last extendsNone => exact .last extendsNone
  | next extendsTarget found fresh reads _ ih =>
    refine .next extendsTarget ((lookups ..).trans found) fresh ?_ (ih fun file mem => ?_)
    · exact texts _ (List.mem_cons_self ..) _ reads
    · exact texts file (List.mem_cons_of_mem _ mem)

/-- Of the template that a chain starts from only its file and its lookups matter. -/
theorem Follows.of_origin {t t' : Template} (file : t'.file = t.file)
    (lookups : ∀ target, target? s fs (some t') target = target? s fs (some t) target) {c chain : Chain} {source : Text}
    {further : List Location} (follows : Follows s fs c (some t) source further chain) :
    Follows s fs c (some t') source further chain := by
  have build : buildFile s c (some t') source = buildFile s c (some t) source := by
    simp only [buildFile, Option.map_some, file]
  have visited : visitedBy c (some t') = visitedBy c (some t) := by
    rw [visitedBy_some, visitedBy_some, file]
  cases follows with
  | last extendsNone =>
    rw [← build] at extendsNone ⊢
    exact .last extendsNone
  | next extendsTarget found fresh reads rest =>
    rw [← build] at extendsTarget
    rw [← visited] at fresh
    rw [← visited, ← build] at rest
    exact .next extendsTarget ((lookups _).trans found) fresh reads rest

/-- The files that the chain of a template is built from, its own first. -/
structure Reads (s : Settings) (fs : FileSystem) (t : Template) (files : List Location) (chain : Chain) : Prop where
  follows : ∃ source further, files = t.file :: further ∧ fs.readAt t.file = .ok source ∧
    Follows s fs {} (some t) source further chain

theorem ofTemplate_eq_ok_iff {t : Template} {log : List Event} {chain : Chain} :
    ((ofTemplate s fs t).run log).1 = .ok chain ↔ ∃ files, Reads s fs t files chain := by
  unfold ofTemplate
  rw [run_bind]
  cases reads : fs.readAt t.file with
  | error e =>
    refine ⟨fun ok => (by cases ok), ?_⟩
    rintro ⟨files, source, further, -, ok, -⟩
    rw [reads] at ok
    cases ok
  | ok source =>
    refine ofSource_eq_ok_iff.trans ⟨?_, ?_⟩
    · rintro ⟨further, follows⟩
      exact ⟨t.file :: further, source, further, rfl, reads, follows⟩
    · rintro ⟨files, source', further, -, ok, follows⟩
      rw [reads] at ok
      cases ok
      exact ⟨further, follows⟩

theorem Reads.transfer {fs' : FileSystem} {t : Template} {files : List Location} {chain : Chain}
    (built : Reads s fs t files chain)
    (lookups : ∀ origin target, target? s fs' origin target = target? s fs origin target)
    (texts : ∀ file ∈ files, ∀ t, fs.readAt file = .ok t → fs'.readAt file = .ok t) :
    Reads s fs' t files chain := by
  obtain ⟨source, further, rfl, reads, follows⟩ := built.follows
  refine ⟨source, further, rfl, ?_, follows.transfer lookups fun file mem => ?_⟩
  · exact texts _ (List.mem_cons_self ..) _ reads
  · exact texts file (List.mem_cons_of_mem _ mem)

theorem Reads.of_origin {t t' : Template} {files : List Location} {chain : Chain} (built : Reads s fs t files chain)
    (file : t'.file = t.file)
    (lookups : ∀ target, target? s fs (some t') target = target? s fs (some t) target) : Reads s fs t' files chain := by
  obtain ⟨source, further, rfl, reads, follows⟩ := built.follows
  refine ⟨source, further, ?_, ?_, follows.of_origin file lookups⟩
  · rw [file]
  · rw [file, reads]

/-- **Arena and block stack of a chain belong together.** -/
theorem gathered_of_follows {c chain : Chain} {origin : Option Template} {source : Text} {further : List Location}
    (follows : Follows s fs c origin source further chain) (g : c.tree.Gathered c.blocks []) :
    chain.tree.Gathered chain.blocks [] := by
  induction follows with
  | last _ => exact Tree.gathered_build _ _ g
  | next _ _ _ _ _ ih => exact ih (Tree.gathered_build _ _ g)

theorem gathered_empty : Tree.Gathered {} {} [] where
  rising i p eq := by cases (Tree.parent?_of_size_le (Nat.zero_le i)).symm.trans eq
  children id := by
    rw [Tree.children_of_size_le (Nat.zero_le id)]
    split <;> rfl
  cursor _ := rfl
  bodies _ _ := rfl
  inside _ mem := nomatch mem
  unclosed _ mem := nomatch mem
  around _ mem := nomatch mem

theorem gathered_of_ofSource {origin : Option Template} {source : Text} {log : List Event} {chain : Chain}
    (built : ((ofSource s fs origin source).run log).1 = .ok chain) : chain.tree.Gathered chain.blocks [] := by
  obtain ⟨_, follows⟩ := ofSource_eq_ok_iff.1 built
  exact gathered_of_follows follows gathered_empty

end Chain

/-! ## A directory of templates -/

def defining (name content : Text) : Text :=
  "<tpl:Block ".toList ++ "name=\"".toList ++ name ++ "\">".toList ++ content ++ "</tpl:".toList ++ "Block>".toList

def extending (target : Text) : Text :=
  "\x7b\x7btpl:".toList ++ "extends ".toList ++ "parent=\"".toList ++ target ++ "\"\x7d\x7d".toList

def above : Text := "\x7b\x7btpl:".toList ++ "parent".toList ++ "\x7d\x7d".toList

def libraryOf (templates : List (Text × Text)) : FileSystem :=
  { FileSystem.empty with
    entries := ([], .directory FileSystem.newDirectoryMode 0) ::
      templates.map fun t => ([t.1], .file (.text t.2) FileSystem.newFileMode 0) }

def librarySettings : Settings := { searchPath := ⟨[[]]⟩ }

def followIn (templates : List (Text × Text)) (source : Text) : Except Error Chain :=
  ((Chain.ofSource librarySettings (libraryOf templates) none source).run []).1

/-- The chain of a source among some templates; the empty chain if it has none. -/
def chainIn (templates : List (Text × Text)) (source : Text) : Chain :=
  (followIn templates source).toOption.getD {}

theorem built_chainIn {templates : List (Text × Text)} {source : Text}
    (ok : (followIn templates source).isOk = true) :
    followIn templates source = .ok (chainIn templates source) := by
  unfold chainIn
  cases eq : followIn templates source with
  | error e =>
    rw [eq] at ok
    cases ok
  | ok chain => rfl

end TagTemplate
