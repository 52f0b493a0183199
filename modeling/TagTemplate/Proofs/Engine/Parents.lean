/-
# Proofs.Engine.Parents -- chains of parents come to an end

A file that extends `__parent__` is followed to the file of the same name in a later
directory of the search path.  As long as a chain has no other links, it goes through the
directories in their order (`Descends`): what was read was found in directories that have
been passed, and what comes next is found in one that has not.  Each directory has one
place in the search path, and one name leads to different files from different
directories, also where one of these lies inside of another.  So no file comes twice.

What is left to go wrong, besides a file that holds no text, is that no later directory
has the name.
-/
import Mathlib.Data.Fintype.Card
import Mathlib.Data.List.NodupEquivFin
import TagTemplate.Proofs.Engine.Walk
import TagTemplate.Proofs.SearchPath.Order

namespace TagTemplate

set_option autoImplicit false

/-! ## Files in rising directories -/

namespace SearchPath

variable {fs : FileSystem} {name : Text}

/-- Some files lie where a name leads from directories of a list, each from one behind those before it. -/
def Rising (fs : FileSystem) (name : Text) (dirs files : List Location) : Prop :=
  ∃ place : Fin files.length → Fin dirs.length, StrictMono place ∧
    ∀ i, ∃ t, findIn? fs name [dirs[place i]] = some t ∧ t.file = files[i]

theorem Rising.length_le {dirs files : List Location} (rising : Rising fs name dirs files) :
    files.length ≤ dirs.length := by
  obtain ⟨place, mono, -⟩ := rising
  simpa using Fintype.card_le_of_injective place mono.injective

theorem rising_of_sublist {dirs visited : List Location} (order : visited.Sublist dirs)
    (there : ∀ dir ∈ visited, findIn? fs name [dir] = some (templateIn name dir)) :
    Rising fs name dirs (visited.map fun dir => (templateIn name dir).file) := by
  obtain ⟨place, same⟩ := List.sublist_iff_exists_fin_orderEmbedding_get_eq.1 order
  have length : (visited.map fun dir => (templateIn name dir).file).length = visited.length := List.length_map _
  refine ⟨fun i => place (i.cast length), fun i j less => place.strictMono less, fun i => ?_⟩
  have here : dirs[place (i.cast length)] = visited[i.cast length] := (same _).symm
  refine ⟨templateIn name visited[i.cast length], ?_, ?_⟩
  · rw [here]
    exact there _ (List.getElem_mem _)
  · simp

end SearchPath

/-! ## Walks from parent to parent -/

namespace Chain

open SearchPath

variable {s : Settings} {fs : FileSystem} {name : Text}

/-- A stage of a walk that has passed some directories: what was read was found in those, in their order. -/
inductive Descends (fs : FileSystem) (name : Text) (dirs : List Location) : Stage → Prop where
  /-- What is left is searched. -/
  | seeking {visited passed rest : List Location} {target : Text} (split : dirs = passed ++ rest)
      (order : visited.Sublist passed)
      (there : ∀ dir ∈ visited, findIn? fs name [dir] = some (templateIn name dir)) :
      Descends fs name dirs
        (.seeking (visited.map fun dir => (templateIn name dir).file) target (findIn? fs name rest))
  /-- The text is that of the last directory that was passed. -/
  | holding {visited before later : List Location} {dir : Location} {source : Text} (split : dirs = before ++ dir :: later)
      (order : visited.Sublist before)
      (there : ∀ d ∈ visited ++ [dir], findIn? fs name [d] = some (templateIn name d)) :
      Descends fs name dirs
        (.holding ((visited ++ [dir]).map fun dir => (templateIn name dir).file) (some (templateIn name dir)) source)

/-- A walk starts with all directories before it. -/
theorem Descends.start (sp : SearchPath) (target : Text) :
    Descends fs name sp.dirs (.seeking [] target (sp.find? fs name)) :=
  have order : ([] : List Location).Sublist [] := .slnil
  .seeking (List.nil_append _).symm order nofun

/-- A directory is no longer among those before its only place. -/
theorem not_mem_before {dirs before later : List Location} {dir : Location} (distinct : dirs.Nodup)
    (split : dirs = before ++ dir :: later) : dir ∉ before := by
  rw [split] at distinct
  exact fun mem => (List.nodup_append.1 distinct).2.2 dir mem dir (List.mem_cons_self ..) rfl

/-- What is found next is found in a directory that has not been passed. -/
theorem Descends.found {dirs files : List Location} {target : Text} {next : Template}
    (descends : Descends fs name dirs (.seeking files target (some next))) :
    ∃ visited before dir later, dirs = before ++ dir :: later ∧ visited.Sublist before ∧
      (∀ d ∈ visited ++ [dir], findIn? fs name [d] = some (templateIn name d)) ∧
      files = visited.map (fun dir => (templateIn name dir).file) ∧ next = templateIn name dir := by
  generalize found : some next = looked at descends
  cases descends with
  | @seeking visited passed rest _ split order there =>
    obtain ⟨between, dir, later, rfl, here, rfl⟩ := exists_split_of_findIn? found.symm
    refine ⟨visited, passed ++ between, dir, later, ?_, order.trans (List.sublist_append_left ..), ?_, rfl, rfl⟩
    · rw [List.append_assoc]
      exact split
    · intro d mem
      rcases List.mem_append.1 mem with mem | mem
      · exact there d mem
      · exact List.mem_singleton.1 mem ▸ here

/-- The parent of a template is looked up in the directories behind its own. -/
theorem target?_parentSentinel (distinct : s.searchPath.dirs.Nodup) {before later : List Location} {dir : Location}
    (split : s.searchPath.dirs = before ++ dir :: later)
    (there : findIn? fs name [dir] = some (templateIn name dir)) :
    target? s fs (some (templateIn name dir)) parentSentinel = findIn? fs name later :=
  findAfter?_of_split split (not_mem_before distinct split) (isDirAt_of_findIn? there) name

/-- **A step to a parent** passes at least one more directory. -/
theorem Descends.step {a b : Stage} (descends : Descends fs name s.searchPath.dirs a)
    (distinct : s.searchPath.dirs.Nodup)
    (parents : ∀ files origin source target, a = .holding files origin source → s.parent? source = some target →
      target = parentSentinel) (step : Step s fs a b) : Descends fs name s.searchPath.dirs b := by
  cases step with
  | look names =>
    cases descends with
    | @holding visited before later dir _ split order there =>
      obtain rfl := parents _ _ _ _ rfl names
      rw [target?_parentSentinel distinct split (there dir List.mem_concat_self)]
      have passed : s.searchPath.dirs = (before ++ [dir]) ++ later := by
        rw [List.append_assoc]
        exact split
      exact .seeking passed (order.append (.refl _)) there
  | read _ _ =>
    obtain ⟨visited, before, dir, later, split, order, there, rfl, rfl⟩ := descends.found
    have files : visited.map (fun dir => (templateIn name dir).file) ++ [(templateIn name dir).file]
        = (visited ++ [dir]).map fun dir => (templateIn name dir).file := by
      rw [List.map_append, List.map_singleton]
    rw [files]
    exact .holding split order there

/-- **A walk from parent to parent** goes through the directories in their order. -/
theorem Descends.reaches {start a : Stage} (descends : Descends fs name s.searchPath.dirs start)
    (distinct : s.searchPath.dirs.Nodup)
    (parents : ∀ files origin source target, Reaches s fs start (.holding files origin source) →
      s.parent? source = some target → target = parentSentinel)
    (reaches : Reaches s fs start a) : Descends fs name s.searchPath.dirs a := by
  induction reaches with
  | refl => exact descends
  | tail before step ih =>
    refine ih.step distinct (fun files origin source target eq names => ?_) step
    exact parents files origin source target (eq ▸ before) names

theorem Descends.rising {dirs : List Location} {a : Stage} (descends : Descends fs name dirs a) :
    Rising fs name dirs a.files := by
  cases descends with
  | seeking split order there =>
    subst split
    exact rising_of_sublist (order.trans (List.sublist_append_left ..)) there
  | holding split order there =>
    subst split
    exact rising_of_sublist (order.append (List.singleton_sublist.2 (List.mem_cons_self ..))) there

/-- What is found next was not read before: a name leads to different files from different directories. -/
theorem Descends.fresh {dirs files : List Location} {target : Text} {next : Template} (distinct : dirs.Nodup)
    (descends : Descends fs name dirs (.seeking files target (some next))) : next.file ∉ files := by
  obtain ⟨visited, before, dir, later, split, order, -, rfl, rfl⟩ := descends.found
  intro mem
  obtain ⟨dir', passed, same⟩ := List.mem_map.1 mem
  have same : dir' = dir := List.append_cancel_right same
  exact not_mem_before distinct split (order.subset (same ▸ passed))

/-- The files that a chain is followed to are those of a walk. -/
theorem reaches_of_follows {c chain : Chain} {origin : Option Template} {source : Text} {further : List Location}
    (follows : Follows s fs c origin source further chain) :
    ∃ last text, Reaches s fs (.holding (visitedBy c origin) origin source)
      (.holding (visitedBy c origin ++ further) last text) := by
  induction follows with
  | last _ =>
    rw [List.append_nil]
    exact ⟨_, _, .refl⟩
  | @next c _ origin source _ target next files extendsTarget found fresh reads _ ih =>
    obtain ⟨last, text, reaches⟩ := ih
    have looked : Reaches s fs (.holding (visitedBy c origin) origin source) _ :=
      .single (.look (parent?_of_extendsTarget extendsTarget))
    rw [found] at looked
    rw [visitedBy_some, List.append_assoc] at reaches
    exact ⟨last, text, (looked.tail (.read fresh reads)).trans reaches⟩

theorem reaches_of_reads {t : Template} {files : List Location} {chain : Chain} (built : Reads s fs t files chain)
    (target : Text) : ∃ last text, Reaches s fs (.seeking [] target (some t)) (.holding files last text) := by
  obtain ⟨source, further, rfl, reads, follows⟩ := built.follows
  obtain ⟨last, text, reaches⟩ := reaches_of_follows follows
  exact ⟨last, text, .head (.read List.not_mem_nil reads) reaches⟩

end Chain

/-! ## Compiling a chain of parents -/

namespace Engine

open Chain SearchPath

variable {σ : Type}

/-- All that the files of the chain of a name extend is `__parent__`. -/
def ParentsOnly (e : Engine σ) (fs : FileSystem) (name : Text) : Prop :=
  ∀ files origin source target, Reaches e.settings fs (e.sought fs name) (.holding files origin source) →
    e.settings.parent? source = some target → target = parentSentinel

/-- A file of the chain of a name asks for a parent, and no later directory has the name. -/
def AsksInVain (e : Engine σ) (fs : FileSystem) (name : Text) : Prop :=
  ∃ files t source before later, Reaches e.settings fs (e.sought fs name) (.holding files (some t) source) ∧
    e.settings.parent? source = some parentSentinel ∧ e.settings.searchPath.dirs = before ++ t.dir :: later ∧
    ∀ dir ∈ later, findIn? fs name [dir] = none

/-- Compiling the template of a name goes down the search path. -/
structure Descending (e : Engine σ) (name : Text) (s : Session σ) : Prop where
  /-- The files that are read lie in directories at strictly increasing positions. -/
  visits : ∀ a, Reaches e.settings s.files (e.sought s.files name) a →
    Rising s.files name e.settings.searchPath.dirs a.files
  few : ∀ a, Reaches e.settings s.files (e.sought s.files name) a →
    a.files.length ≤ e.settings.searchPath.dirs.length
  /-- What is compiled is the chain of such files. -/
  made : ∀ c, ((e.compile name).run s).1 = .ok c → ∃ t files chain,
    e.settings.searchPath.find? s.files name = some t ∧ Reads e.settings s.files t files chain ∧
      c = e.compilationOfChain s.handlers chain ∧ Rising s.files name e.settings.searchPath.dirs files
  acyclic : ∀ file, ((e.compile name).run s).1 ≠ .error (.extendsCycle file)
  /-- Once there is a first file, and as long as all files hold text, there is one way to fail. -/
  fails : (e.settings.searchPath.find? s.files name).isSome = true →
    (∀ files target t, Reaches e.settings s.files (e.sought s.files name) (.seeking files target (some t)) →
      ∃ text, s.files.readAt t.file = .ok text) →
    ∀ err, ((e.compile name).run s).1 = .error err ↔
      err = .templateNotFound parentSentinel ∧ e.AsksInVain s.files name

variable {e : Engine σ} {s : Session σ} {name : Text}

theorem descends_of_parentsOnly (distinct : e.settings.searchPath.dirs.Nodup) (parents : e.ParentsOnly s.files name)
    {a : Stage} (reaches : Reaches e.settings s.files (e.sought s.files name) a) :
    Descends s.files name e.settings.searchPath.dirs a :=
  (Descends.start e.settings.searchPath name).reaches distinct parents reaches

theorem compile_eq_error_iff {err : Error} : ((e.compile name).run s).1 = .error err ↔
    ∃ a, Reaches e.settings s.files (e.sought s.files name) a ∧ Verdict e.settings s.files a (.error err) := by
  rw [← (e.decides_compile name s).verdict]
  exact ⟨fun eq => by rw [eq]; rfl, eq_error_of_map⟩

/-- Where nothing is found on the way, a file has asked in vain. -/
theorem asksInVain_of_missing (distinct : e.settings.searchPath.dirs.Nodup) (parents : e.ParentsOnly s.files name)
    (found : (e.settings.searchPath.find? s.files name).isSome = true) {files : List Location} {target : Text}
    (reaches : Reaches e.settings s.files (e.sought s.files name) (.seeking files target none)) :
    target = parentSentinel ∧ e.AsksInVain s.files name := by
  generalize looked : (none : Option Template) = nothing at reaches
  rcases reaches.cases_tail with start | ⟨b, toB, step⟩
  · cases start
    rw [← looked] at found
    cases found
  · cases step with
    | @look _ origin source _ names =>
      obtain rfl := parents _ _ _ _ toB names
      cases descends_of_parentsOnly distinct parents toB with
      | @holding visited before later dir _ split order there =>
        rw [target?_parentSentinel distinct split (there dir List.mem_concat_self)] at looked
        exact ⟨rfl, _, _, source, before, later, toB, names, split, findIn?_eq_none_iff.1 looked.symm⟩

/-- A file that asks in vain ends the chain. -/
theorem compile_of_asksInVain (distinct : e.settings.searchPath.dirs.Nodup) (parents : e.ParentsOnly s.files name)
    (vain : e.AsksInVain s.files name) :
    ((e.compile name).run s).1 = .error (.templateNotFound parentSentinel) := by
  obtain ⟨files, t, source, before, later, reaches, names, split, none⟩ := vain
  cases descends_of_parentsOnly distinct parents reaches with
  | @holding visited _ _ dir _ _ _ there =>
    have here := there dir List.mem_concat_self
    have looked : target? e.settings s.files (some (templateIn name dir)) parentSentinel = .none :=
      (target?_parentSentinel distinct split here).trans (findIn?_eq_none_iff.2 none)
    have missing : Reaches e.settings s.files (e.sought s.files name) _ := reaches.tail (.look names)
    rw [looked] at missing
    exact compile_eq_error_iff.2 ⟨_, missing, .missing⟩

/-- **A chain of parents never cycles**, whatever lies in which directories. -/
theorem descending_of_parentsOnly (built : SearchPath.Built e.settings.searchPath) (parents : e.ParentsOnly s.files name) :
    e.Descending name s where
  visits a reaches := (descends_of_parentsOnly built.nodup parents reaches).rising
  few a reaches := (descends_of_parentsOnly built.nodup parents reaches).rising.length_le
  made c ok := by
    rw [run_compile] at ok
    cases found : e.settings.searchPath.find? s.files name with
    | none =>
      rw [found] at ok
      cases ok
    | some t =>
      rw [found] at ok
      obtain ⟨files, chain, reads, rfl⟩ := e.compilationOf_eq_ok_iff.1 ok
      obtain ⟨last, text, reaches⟩ := reaches_of_reads reads name
      rw [← found] at reaches
      exact ⟨t, files, chain, rfl, reads, rfl, (descends_of_parentsOnly built.nodup parents reaches).rising⟩
  acyclic file eq := by
    obtain ⟨a, reaches, verdict⟩ := compile_eq_error_iff.1 eq
    cases verdict with
    | cycle visited => exact (descends_of_parentsOnly built.nodup parents reaches).fresh built.nodup visited
  fails found readable err := by
    constructor
    · intro eq
      obtain ⟨a, reaches, verdict⟩ := compile_eq_error_iff.1 eq
      cases verdict with
      | missing =>
        obtain ⟨rfl, vain⟩ := asksInVain_of_missing built.nodup parents found reaches
        exact ⟨rfl, vain⟩
      | cycle visited => exact absurd visited ((descends_of_parentsOnly built.nodup parents reaches).fresh built.nodup)
      | binary _ holds =>
        obtain ⟨text, reads⟩ := readable _ _ _ reaches
        rw [FileSystem.readAt, holds] at reads
        cases reads
    · rintro ⟨rfl, vain⟩
      exact compile_of_asksInVain built.nodup parents vain

/-- A chain has no other links if no file has. -/
theorem parentsOnly_of_files {fs : FileSystem} (others : ∀ x ∈ fs.entries, ∀ text mode modified,
    x.2 = .file (.text text) mode modified → ∀ target, e.settings.parent? text = some target → target = parentSentinel) :
    e.ParentsOnly fs name := by
  intro files origin source target reaches names
  rcases reaches.cases_tail with same | ⟨_, _, step⟩
  · cases same
  · cases step with
    | @read _ _ _ next _ reads =>
      obtain ⟨mode, modified, holds⟩ := (FileSystem.readAt_eq_ok_iff _ _ _).1 reads
      have mem := FileSystem.mem_entries_of_get? (Option.filter_eq_some_iff.1 holds).1
      exact others _ mem _ _ _ rfl _ names

/-- Three directories, each inside of the next one, with a page in each of them. -/
def insideOut : FileSystem :=
  { FileSystem.empty with
    entries := [([], .directory 0 0), (["t".toList], .directory 0 0), (["t".toList, "s".toList], .directory 0 0),
      (["t".toList, "s".toList, "p".toList], .file (.text (extending parentSentinel)) 0 0),
      (["t".toList, "p".toList], .file (.text (extending parentSentinel)) 0 0),
      (["p".toList], .file (.text "x".toList) 0 0)] }

/-- An engine that looks into these directories from the inside out. -/
def insideOutEngine : Engine Unit :=
  { libraryEngine with
    settings := { searchPath := changed insideOut [.set ["t".toList, "/".toList], .prepend ["t/s".toList]] } }

theorem descending_insideOutEngine :
    insideOutEngine.settings.searchPath.dirs = [["t".toList, "s".toList], ["t".toList], []] ∧
      SearchPath.Built insideOutEngine.settings.searchPath ∧ insideOutEngine.ParentsOnly insideOut "p".toList ∧
      insideOutEngine.Descending "p".toList ⟨insideOut, (), []⟩ := by
  have built : SearchPath.Built insideOutEngine.settings.searchPath := built_changed ..
  have parents : insideOutEngine.ParentsOnly insideOut "p".toList := by
    have links : insideOutEngine.settings.parent? (extending parentSentinel) = some parentSentinel := by decide +kernel
    have plain : insideOutEngine.settings.parent? "x".toList = none := by decide +kernel
    refine parentsOnly_of_files fun x mem text mode modified eq target names => ?_
    simp only [insideOut, List.mem_cons, List.not_mem_nil, or_false] at mem
    rcases mem with rfl | rfl | rfl | rfl | rfl | rfl
    all_goals cases eq
    · exact (Option.some.inj (links.symm.trans names)).symm
    · exact (Option.some.inj (links.symm.trans names)).symm
    · cases plain.symm.trans names
  exact ⟨by decide +kernel, built, parents, descending_of_parentsOnly built parents⟩

end Engine

end TagTemplate
