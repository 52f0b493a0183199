/-
# Proofs.CommandLine.Check -- what checking templates comes to

Checking goes through the names in their order, compiles each of them, and stops at the
first that fails.  Compiling changes neither the files nor what compiling the next name
comes to, so all that is printed and counted is said by what compiling each of the names
comes to on its own (`judge`, `run_checkAll`).

With that the exit code is read off (`Verdict`): 0 where every template compiles without a
fault, 1 where all compile and some have faults, the sum of which is said at the end, and
2 where some name fails, wherever it stands in the list and whatever was counted before.

No cache is asked, and what lies where no template is found has no part in any of this
(`Checks`).  Only where a name, or what its template extends, leads into the folder of a
cache can an artifact be seen: it is checked as a template then (`exit_of_artifact`).
-/
import TagTemplate.Proofs.Chain.Apart
import TagTemplate.Proofs.CommandLine.Building

namespace TagTemplate

set_option autoImplicit false

open Text
open Chain (StaysOut)
open FileSystem (SameBut Whole)

/-- Compiling reads the files and leaves them alone. -/
theorem Engine.files_compile {σ : Type} (e : Engine σ) (name : Text) (s : Session σ) :
    ((e.compile name).run s).2.files = s.files := by
  unfold compile
  rw [run_bind, run_find]
  cases e.settings.searchPath.find? s.files name with
  | none => rfl
  | some t => exact (e.run_compileTemplate t (e.lookedUp name s)).2.files

namespace CommandLine

variable {a : Arguments} {names : List Text} {color verbose : Bool} {files : FileSystem} {e : Engine Unit}
  {built : Progress}

/-! ## Judging -/

def compiled (e : Engine Unit) (fs : FileSystem) (name : Text) : Except Error Compilation :=
  ((e.compile name).run ⟨fs, (), []⟩).1

/-- What was noted before makes no difference to what compiling comes to. -/
theorem run_compile_eq (e : Engine Unit) (name : Text) (s : Session Unit) :
    ((e.compile name).run s).1 = compiled e s.files name := by
  rw [compiled, Engine.run_compile, Engine.run_compile]

def verdictLine (color verbose : Bool) (name : Text) (c : Compilation) : Text :=
  if c.hasErrors then
    bold color name ++ ' ' :: red color (decimal c.diagnostics.length ++ " structural error(s)".toList) ++ ['\n']
  else if verbose then green color "ok".toList ++ ' ' :: name ++ ['\n']
  else []

/-- What is counted, printed and said about some templates. -/
structure Judgement where
  count : Except Error Nat := .ok 0
  text : Text := []
  faults : List Diagnostic := []

/-- What is counted, printed and said, by what compiling each name comes to: it ends with the first error. -/
def judge (color verbose : Bool) (result : Text → Except Error Compilation) : List Text → Judgement
  | [] => {}
  | name :: names =>
    match result name with
    | .error err => { count := .error err }
    | .ok c =>
      let rest := judge color verbose result names
      { count := rest.count.map (c.diagnostics.length + ·)
        text := verdictLine color verbose name c ++ rest.text
        faults := c.diagnostics ++ rest.faults }

/-- The number of faults of a template; none if it does not compile. -/
def faultsOf : Except Error Compilation → Nat
  | .ok c => c.diagnostics.length
  | .error _ => 0

variable {result : Text → Except Error Compilation}

/-- **All faults are counted** if all names compile. -/
theorem count_judge (color verbose : Bool) (whole : ∀ name ∈ names, ∃ c, result name = .ok c) :
    (judge color verbose result names).count = .ok (names.map fun name => faultsOf (result name)).sum := by
  induction names with
  | nil => rfl
  | cons name names ih =>
    obtain ⟨⟨c, first⟩, rest⟩ := List.forall_mem_cons.1 whole
    rw [judge, first]
    dsimp only
    rw [ih rest, List.map_cons, List.sum_cons, first]
    rfl

/-- Nothing is counted if some name fails. -/
theorem exists_count_judge (color verbose : Bool) (fails : ∃ name ∈ names, ∃ err, result name = .error err) :
    ∃ err, (judge color verbose result names).count = .error err := by
  induction names with
  | nil =>
    obtain ⟨_, mem, -⟩ := fails
    cases mem
  | cons name names ih =>
    rw [judge]
    cases first : result name with
    | error err => exact ⟨err, rfl⟩
    | ok c =>
      obtain ⟨name', mem, err, later⟩ := fails
      rcases List.mem_cons.1 mem with rfl | mem
      · rw [first] at later
        cases later
      · obtain ⟨err, rest⟩ := ih ⟨name', mem, err, later⟩
        dsimp only
        rw [rest]
        exact ⟨err, rfl⟩

theorem judge_congr {result' : Text → Except Error Compilation} (same : ∀ name ∈ names, result' name = result name) :
    judge color verbose result' names = judge color verbose result names := by
  induction names with
  | nil => rfl
  | cons name names ih =>
    obtain ⟨first, rest⟩ := List.forall_mem_cons.1 same
    rw [judge, judge, first, ih rest]

/-! ## Checking is judging -/

theorem run_checkOne (e : Engine Unit) (color verbose : Bool) (name : Text) (p : Progress) :
    ∃ session, session.files = p.session.files ∧ (checkOne e color verbose name).run p =
      match compiled e p.session.files name with
      | .error err => (.error (.failure err), { p with session })
      | .ok c => (.ok c.diagnostics.length, ⟨session, p.stdout ++ verdictLine color verbose name c,
          p.notices ++ c.diagnostics.map .fault⟩) := by
  refine ⟨((e.compile name).run p.session).2, e.files_compile name p.session, ?_⟩
  unfold checkOne
  rw [run_bind, Job.run_request, run_compile_eq]
  cases compiled e p.session.files name with
  | error err => rfl
  | ok c =>
    dsimp only [Except.mapError]
    unfold verdictLine
    cases faulty : c.hasErrors with
    | true =>
      simp only [if_true]
      rw [run_bind]
      show (do forIn c.diagnostics PUnit.unit _; pure c.diagnostics.length : Job Nat).run _ = _
      rw [run_bind, Job.run_say_each]
      rfl
    | false =>
      have none : c.diagnostics = [] := by simpa [Compilation.hasErrors] using faulty
      cases verbose <;> simp [none, Job.print] <;> rfl

/-- **Checking some templates** is judging them by what compiling each comes to. -/
theorem run_checkAll (e : Engine Unit) (color verbose : Bool) (names : List Text) (p : Progress) :
    ∃ session, session.files = p.session.files ∧ (checkAll e color verbose names).run p =
      let j := judge color verbose (compiled e p.session.files) names
      (j.count.mapError .failure, ⟨session, p.stdout ++ j.text, p.notices ++ j.faults.map .fault⟩) := by
  induction names generalizing p with
  | nil =>
    refine ⟨p.session, rfl, ?_⟩
    simp [judge, checkAll]
    rfl
  | cons name names ih =>
    obtain ⟨s₁, kept, first⟩ := run_checkOne e color verbose name p
    rw [checkAll, run_bind, first, judge]
    cases compiled e p.session.files name with
    | error err =>
      refine ⟨s₁, kept, ?_⟩
      simp [Except.mapError]
    | ok c =>
      obtain ⟨s₂, kept', rest⟩ := ih ⟨s₁, p.stdout ++ verdictLine color verbose name c, p.notices ++ c.diagnostics.map .fault⟩
      refine ⟨s₂, kept'.trans kept, ?_⟩
      dsimp only at rest ⊢
      rw [run_bind, rest, kept, List.map_append, List.append_assoc, List.append_assoc]
      cases (judge color verbose (compiled e p.session.files) names).count <;> rfl

/-! ## The command -/

def ended : Except Notice Nat × Progress → Outcome × FileSystem
  | (.ok exit, p) => (⟨exit, p.stdout, p.notices⟩, p.session.files)
  | (.error n, p) => (⟨2, p.stdout, p.notices ++ [n]⟩, p.session.files)

theorem run_of_perform {c : Command} (command : a.command = some c) (color : Bool) (files : FileSystem) :
    run a color files = ended ((perform a color c).run { session := ⟨files, (), []⟩ }) := by
  unfold run
  rw [command]
  generalize performed : (perform a color c).run { session := ⟨files, (), []⟩ } = result
  have performed' : (perform a color c).run.run { session := ⟨files, (), []⟩ } = result := performed
  dsimp only
  rw [performed']
  obtain ⟨_ | _, _⟩ := result <;> rfl

/-- How the command ends, by what was said before and the judgement of its names. -/
def Judgement.outcome (color : Bool) (length : Nat) (before : List Notice) (j : Judgement) : Outcome :=
  match j.count with
  | .error err => ⟨2, j.text, before ++ j.faults.map .fault ++ [.failure err]⟩
  | .ok 0 =>
    let all := "All ".toList ++ decimal length ++ " template(s) are well formed.".toList
    ⟨0, j.text ++ (green color all ++ ['\n']), before ++ j.faults.map .fault⟩
  | .ok (n + 1) => ⟨1, j.text, before ++ j.faults.map .fault ++ [.faultCount (n + 1)]⟩

/-- **Running the command** is judging the names on the files that the engine was built on. -/
theorem run_check (command : a.command = some (.check names)) (builds : Builds a files e built) (color : Bool) :
    run a color files =
      ((judge color a.verbose (compiled e built.session.files) names).outcome color names.length built.notices,
        built.session.files) := by
  obtain ⟨session, kept, checked⟩ := run_checkAll e color a.verbose names built
  dsimp only at checked
  rw [builds.ready.stdout, List.nil_append, ← kept] at checked
  rw [← kept, run_of_perform command]
  unfold perform
  rw [run_bind, builds]
  dsimp only
  rw [run_bind, checked]
  generalize judge color a.verbose (compiled e session.files) names = j
  obtain ⟨err | _ | n, text, faults⟩ := j <;> rfl

/-! ## Verdicts -/

/-- **A verdict on some templates**, by what compiling each name comes to: the exit code is 0 if all are well formed,
1 if all compile and some have faults, and 2 if some fail.  The number of all faults is said exactly if it is 1, in
the last line. -/
structure Verdict (color : Bool) (names : List Text) (result : Text → Except Error Compilation) (o : Outcome) : Prop where
  clean : o.exit = 0 ↔ ∀ name ∈ names, ∃ c, result name = .ok c ∧ c.hasErrors = false
  faulty : o.exit = 1 ↔ (∀ name ∈ names, ∃ c, result name = .ok c) ∧
    ∃ name ∈ names, ∃ c, result name = .ok c ∧ c.hasErrors = true
  failed : o.exit = 2 ↔ ∃ name ∈ names, ∃ err, result name = .error err
  total : ∀ k, .faultCount k ∈ o.notices ↔ o.exit = 1 ∧ k = (names.map fun name => faultsOf (result name)).sum
  line : o.exit = 1 → o.notices.getLast?.map (Notice.line color) = some (red color "error:".toList ++
    ' ' :: decimal (names.map fun name => faultsOf (result name)).sum ++ " structural error(s) found.".toList)

/-- All are well formed if there are no faults in all. -/
theorem sum_faultsOf_eq_zero_iff (whole : ∀ name ∈ names, ∃ c, result name = .ok c) :
    (names.map fun name => faultsOf (result name)).sum = 0 ↔
      ∀ name ∈ names, ∃ c, result name = .ok c ∧ c.hasErrors = false := by
  rw [List.sum_eq_zero_iff, List.forall_mem_map]
  refine forall₂_congr fun name mem => ?_
  obtain ⟨c, ok⟩ := whole name mem
  simp [ok, faultsOf, Compilation.hasErrors]

/-- Some have faults if all compile and not all are well formed. -/
theorem exists_faulty_iff (whole : ∀ name ∈ names, ∃ c, result name = .ok c) :
    (∃ name ∈ names, ∃ c, result name = .ok c ∧ c.hasErrors = true) ↔
      ¬ ∀ name ∈ names, ∃ c, result name = .ok c ∧ c.hasErrors = false := by
  push Not
  refine exists_congr fun name => and_congr_right fun mem => ?_
  obtain ⟨c, ok⟩ := whole name mem
  simp [ok]

/-- Some fail if not all compile. -/
theorem exists_error_iff :
    (∃ name ∈ names, ∃ err, result name = .error err) ↔ ¬ ∀ name ∈ names, ∃ c, result name = .ok c := by
  push Not
  refine exists_congr fun name => and_congr_right fun _ => ?_
  cases result name <;> simp

/-- **A judgement ends in a verdict**, if nothing was counted before. -/
theorem verdict_outcome {before : List Notice} (uncounted : ∀ k, .faultCount k ∉ before) :
    Verdict color names result ((judge color verbose result names).outcome color names.length before) := by
  unfold Judgement.outcome
  by_cases whole : ∀ name ∈ names, ∃ c, result name = .ok c
  · have unfailed := not_not_intro whole
    rw [← exists_error_iff] at unfailed
    have clean_iff := sum_faultsOf_eq_zero_iff whole
    have faulty_iff := exists_faulty_iff whole
    rw [← clean_iff] at faulty_iff
    rw [count_judge color verbose whole]
    cases sum : (names.map fun name => faultsOf (result name)).sum with
    | zero =>
      rw [sum] at clean_iff faulty_iff
      exact
        { clean := iff_of_true rfl (clean_iff.1 rfl)
          faulty := iff_of_false nofun fun faulty => faulty_iff.1 faulty.2 rfl
          failed := iff_of_false nofun unfailed
          total := fun k => iff_of_false (by simp [uncounted]) nofun
          line := nofun }
    | succ n =>
      rw [sum] at clean_iff faulty_iff
      exact
        { clean := iff_of_false nofun fun clean => Nat.succ_ne_zero n (clean_iff.2 clean)
          faulty := iff_of_true rfl ⟨whole, faulty_iff.2 (Nat.succ_ne_zero n)⟩
          failed := iff_of_false nofun unfailed
          total := fun k => by simp [uncounted, sum]
          line := fun _ => by rw [List.getLast?_concat, sum]; rfl }
  · have fails := exists_error_iff.2 whole
    obtain ⟨err, count⟩ := exists_count_judge color verbose fails
    rw [count]
    exact
      { clean := iff_of_false nofun fun clean => whole fun name mem => (clean name mem).imp fun _ => And.left
        faulty := iff_of_false nofun fun faulty => whole faulty.1
        failed := iff_of_true rfl fails
        total := fun k => iff_of_false (by simp [uncounted]) nofun
        line := nofun }

/-! ## Projects that differ where nothing is found -/

/-- Two projects in which an engine is built with the same settings, and which differ in some locations only.  No
template on the way from one of the names lies there in either of them. -/
structure Alike (D : Location → Prop) (names : List Text) (e : Engine Unit) (built : Progress) (e' : Engine Unit)
    (built' : Progress) : Prop where
  settings : e'.settings = e.settings
  same : SameBut D built.session.files built'.session.files
  here : ∀ name ∈ names, StaysOut e.settings built.session.files D (e.sought built.session.files name)
  there : ∀ name ∈ names, StaysOut e.settings built'.session.files D (e.sought built'.session.files name)

variable {D : Location → Prop} {a' : Arguments} {files' : FileSystem} {e' : Engine Unit} {built' : Progress}

theorem Alike.compiled_eq (alike : Alike D names e built e' built') (whole : Whole D) (builds : Builds a files e built)
    (builds' : Builds a' files' e' built') {name : Text} (mem : name ∈ names) :
    compiled e' built'.session.files name = compiled e built.session.files name :=
  Engine.compile_apart whole alike.same rfl (builds'.ready.registry.trans builds.ready.registry.symm) alike.settings
    (alike.here name mem) (alike.there name mem)

/-- **What a command that checks some names does.**  It gives the verdict on them.  It changes nothing that is there
when the engine is built, and for building it no file was changed.  What lies where no template is found has no
part in it: artifacts that are stale, fresh or not there at all, and any cache. -/
structure Checks (a : Arguments) (color : Bool) (files : FileSystem) (names : List Text) (e : Engine Unit)
    (built : Progress) : Prop where
  verdict : Verdict color names (compiled e built.session.files) (run a color files).1
  leaves : (run a color files).2 = built.session.files
  kept : ∀ l, (run a color files).2.file? l = files.file? l
  apart : ∀ D, Whole D → ∀ a' files' e' built', a'.command = a.command → a'.verbose = a.verbose →
    Builds a' files' e' built' → Alike D names e built e' built' → (run a' color files').1 = (run a color files).1

theorem checks_of_builds (command : a.command = some (.check names)) (builds : Builds a files e built) (color : Bool) :
    Checks a color files names e built := by
  have uncounted (k : Nat) : .faultCount k ∉ built.notices := by
    rw [builds.ready.notices]
    split <;> simp
  have ran := run_check command builds color
  constructor
  case verdict =>
    rw [ran]
    exact verdict_outcome uncounted
  case leaves => rw [ran]
  case kept =>
    rw [ran]
    exact builds.ready.files
  case apart =>
    intro D whole a' files' e' built' command' verbose builds' alike
    have notices : built'.notices = built.notices := by
      rw [builds'.ready.notices, builds.ready.notices, alike.settings, verbose]
    have judged : judge color a'.verbose (compiled e' built'.session.files) names =
        judge color a.verbose (compiled e built.session.files) names := by
      rw [verbose]
      exact judge_congr fun name mem => alike.compiled_eq whole builds builds' mem
    rw [run_check (command'.trans command) builds', ran, judged, notices]

def usual : Cache := ⟨[".tagtpl".toList, "cache".toList]⟩

/-- A template without faults, one with a closing tag too many and one with two, and a cache without artifacts. -/
def drafts : FileSystem :=
  { FileSystem.empty with
    entries := [(["t".toList, "a".toList], .file (.text "x".toList) 0 0),
      (["t".toList, "b".toList], .file (.text "x</tpl:y>".toList) 0 0),
      (["t".toList, "c".toList], .file (.text "</tpl:y>x</tpl:y>".toList) 0 0), (["t".toList], .directory 0 0)] ++
      (usual.shard "/t/a".toList).inits.map (·, .directory 0 0) }

/-- The same with an artifact of the first template. -/
def stocked (text : Text) : FileSystem :=
  { drafts with entries := (usual.artifact "/t/a".toList, .file (.text text) 0 0) :: drafts.entries }

def draftNames : List Text := ["b".toList, "a".toList, "c".toList]

def checkDrafts : Arguments := { command := some (.check draftNames), templateDirs := ["t".toList] }

/-- Three faults are counted, whatever the artifact has to say. -/
theorem checks_drafts :
    ∃ e built, Builds checkDrafts drafts e built ∧ Checks checkDrafts false drafts draftNames e built ∧
      (run checkDrafts false drafts).1.exit = 1 ∧ .faultCount 3 ∈ (run checkDrafts false drafts).1.notices ∧
      (run checkDrafts false (stocked "</tpl:z>".toList)).1 = (run checkDrafts false drafts).1 := by
  obtain ⟨e, built, builds, -, settings, files⟩ : ∃ e built, Builds checkDrafts drafts e built ∧ e.cache = usual ∧
      e.settings = { searchPath := ⟨[["t".toList]]⟩ } ∧ built.session.files = drafts :=
    exists_builds (by decide +kernel)
  obtain ⟨e', built', builds', -, settings', files'⟩ : ∃ e built,
      Builds checkDrafts (stocked "</tpl:z>".toList) e built ∧ e.cache = usual ∧
        e.settings = { searchPath := ⟨[["t".toList]]⟩ } ∧ built.session.files = stocked "</tpl:z>".toList :=
    exists_builds (by decide +kernel)
  have checks := checks_of_builds rfl builds false
  have beside : ∀ dir ∈ e.settings.searchPath.dirs, ∀ l, dir <+: l → ¬ usual.root <+: l := by
    rw [settings]
    rintro _ (_ | ⟨_, ⟨⟩⟩) l below inside
    exact absurd (List.prefix_of_prefix_length_le below inside (by decide)) (by decide)
  have alike : Alike (usual.root <+: ·) draftNames e built e' built' :=
    { settings := settings'.trans settings.symm
      same := by
        rw [files, files']
        exact (FileSystem.sameBut_cons ..).mono fun l eq => eq ▸ List.prefix_append ..
      here := fun name _ => Chain.staysOut_of_dirs beside _ name
      there := fun name _ => Chain.staysOut_of_dirs beside _ name }
  have unseen := checks.apart _ (fun _ _ inside below => inside.trans below) _ _ _ _ rfl rfl builds' alike
  exact ⟨e, built, builds, checks, by decide +kernel, by decide +kernel, unseen⟩

/-! ## An artifact as a template -/

def checkArtifact : Arguments := { command := some (.check [(usual.artifact "/t/a".toList).written.tail]) }

theorem sameBut_stocked (text text' : Text) :
    SameBut (fun l => ∃ source, l = usual.artifact source) (stocked text) (stocked text') := by
  have artifact (text : Text) : SameBut (fun l => ∃ source, l = usual.artifact source) drafts (stocked text) :=
    (FileSystem.sameBut_cons ..).mono fun _ eq => ⟨_, eq⟩
  exact (artifact text).symm.trans (artifact text')

/-- **An artifact that is named as a template** is checked as one: the same command ends differently in two projects
that differ in an artifact of their cache only. -/
theorem exit_of_artifact :
    ∃ e built e' built', Builds checkArtifact (stocked "x".toList) e built ∧
      Builds checkArtifact (stocked "x</tpl:y>".toList) e' built' ∧ e'.cache = e.cache ∧
      SameBut (fun l => ∃ source, l = e.cache.artifact source) (stocked "x".toList) (stocked "x</tpl:y>".toList) ∧
      (run checkArtifact false (stocked "x".toList)).1.exit = 0 ∧
      (run checkArtifact false (stocked "x</tpl:y>".toList)).1.exit = 1 := by
  obtain ⟨e, built, builds, cache, -⟩ : ∃ e built, Builds checkArtifact (stocked "x".toList) e built ∧
      e.cache = usual ∧ e.settings = { searchPath := ⟨[[]]⟩ } ∧ built.session.files = stocked "x".toList :=
    exists_builds (by decide +kernel)
  obtain ⟨e', built', builds', cache', -⟩ : ∃ e built, Builds checkArtifact (stocked "x</tpl:y>".toList) e built ∧
      e.cache = usual ∧ e.settings = { searchPath := ⟨[[]]⟩ } ∧ built.session.files = stocked "x</tpl:y>".toList :=
    exists_builds (by decide +kernel)
  refine ⟨e, built, e', built', builds, builds', cache'.trans cache.symm, ?_, by decide +kernel, by decide +kernel⟩
  rw [cache]
  exact sameBut_stocked ..

end CommandLine

end TagTemplate
