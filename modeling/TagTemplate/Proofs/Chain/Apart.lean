/-
# Proofs.Chain.Apart -- what is not found makes no difference

Two file systems that differ in some locations only, with all that is below those, find
the same templates, as long as neither of them finds one there (`findIn?_apart`): a lookup
asks for the locations above the file that it finds, and for files that are not there.

So a chain comes to the same in both, and so does what is compiled, if no file that is
found along it lies where they differ (`compile_apart`).  It may have any contents there
that nothing is looked up in, the artifacts of a cache for one.
-/
import TagTemplate.Proofs.Engine.Walk
import TagTemplate.Proofs.SearchPath.Order

namespace TagTemplate

set_option autoImplicit false

namespace FileSystem

variable {D : Location → Prop} {fs fs' : FileSystem}

/-- Two file systems have the same files and directories, but for some locations. -/
structure SameBut (D : Location → Prop) (fs fs' : FileSystem) : Prop where
  kind : ∀ l, ¬ D l → fs'.kind? l = fs.kind? l
  file : ∀ l, ¬ D l → fs'.file? l = fs.file? l

theorem SameBut.symm (same : SameBut D fs fs') : SameBut D fs' fs where
  kind l out := (same.kind l out).symm
  file l out := (same.file l out).symm

theorem SameBut.trans {fs'' : FileSystem} (first : SameBut D fs fs') (second : SameBut D fs' fs'') : SameBut D fs fs'' where
  kind l out := (second.kind l out).trans (first.kind l out)
  file l out := (second.file l out).trans (first.file l out)

theorem SameBut.mono {D' : Location → Prop} (same : SameBut D fs fs') (more : ∀ l, D l → D' l) : SameBut D' fs fs' where
  kind l out := same.kind l fun inside => out (more l inside)
  file l out := same.file l fun inside => out (more l inside)

/-- An entry that is put in front of others is the only difference. -/
theorem sameBut_cons (fs : FileSystem) (l : Location) (e : Entry) :
    SameBut (· = l) fs { fs with entries := (l, e) :: fs.entries } := by
  have elsewhere (m : Location) (ne : ¬ m = l) : FileSystem.get? { fs with entries := (l, e) :: fs.entries } m = fs.get? m := by
    have first : (l == m) = false := beq_eq_false_iff_ne.2 (Ne.symm ne)
    simp only [get?, List.find?_cons, first]
  exact ⟨fun m ne => congrArg _ (elsewhere m ne), fun m ne => congrArg _ (elsewhere m ne)⟩

theorem SameBut.readAt (same : SameBut D fs fs') {l : Location} (out : ¬ D l) : fs'.readAt l = fs.readAt l :=
  readAt_congr (same.kind l out) (same.file l out)

/-- Some locations, and all that is below them. -/
def Whole (D : Location → Prop) : Prop := ∀ l m, D l → l <+: m → D m

end FileSystem

open FileSystem (SameBut Whole)

/-! ## Lookups -/

namespace SearchPath

variable {D : Location → Prop} {fs fs' : FileSystem} {name : Text}

/-- What is found elsewhere in a directory is found in both. -/
theorem findIn?_singleton_apart (whole : Whole D) (same : SameBut D fs fs') {dir : Location} {t : Template}
    (found : findIn? fs name [dir] = some t) (out : ¬ D t.file) : findIn? fs' name [dir] = some t := by
  obtain rfl := findIn?_singleton found
  have along : fs.SameAlong fs' dir (Path.names name) := by
    intro m above
    refine same.kind _ fun inside => out (whole _ _ inside ?_)
    exact (List.prefix_append_right_inj dir).2 above
  rw [findIn?_along name (List.forall_mem_singleton.2 along), found]

/-- **Lookups come to the same** as long as neither finds anything where the two differ. -/
theorem findIn?_apart (whole : Whole D) (same : SameBut D fs fs') {dirs : List Location}
    (here : ∀ t, findIn? fs name dirs = some t → ¬ D t.file)
    (there : ∀ t, findIn? fs' name dirs = some t → ¬ D t.file) : findIn? fs' name dirs = findIn? fs name dirs := by
  induction dirs with
  | nil => rw [findIn?_nil, findIn?_nil]
  | cons dir dirs ih =>
    rw [findIn?_cons dir dirs] at here there
    rw [findIn?_cons dir dirs, findIn?_cons dir dirs]
    cases first : findIn? fs name [dir] with
    | some t =>
      rw [first] at here
      rw [findIn?_singleton_apart whole same first (here t rfl), Option.some_or, Option.some_or]
    | none =>
      cases first' : findIn? fs' name [dir] with
      | some t =>
        rw [first'] at there
        rw [findIn?_singleton_apart whole same.symm first' (there t rfl)] at first
        cases first
      | none =>
        rw [first, Option.none_or] at here
        rw [first', Option.none_or] at there
        rw [Option.none_or, Option.none_or, ih here there]

theorem findAfter?_apart (whole : Whole D) (same : SameBut D fs fs') {sp : SearchPath} {dir : Location} (out : ¬ D dir)
    (here : ∀ t, sp.findAfter? fs dir name = some t → ¬ D t.file)
    (there : ∀ t, sp.findAfter? fs' dir name = some t → ¬ D t.file) :
    sp.findAfter? fs' dir name = sp.findAfter? fs dir name := by
  unfold findAfter? at here there ⊢
  rw [FileSystem.isDirAt_congr (same.kind dir out)] at there ⊢
  cases isDir : fs.isDirAt dir with
  | false => rfl
  | true =>
    rw [isDir] at here there
    cases after : sp.after? dir with
    | none => rfl
    | some rest =>
      rw [after] at here there
      exact findIn?_apart whole same here there

end SearchPath

/-! ## Chains -/

namespace Chain

variable {s : Settings} {D : Location → Prop} {fs fs' : FileSystem}

/-- No file that is found on the way from a stage lies in some locations. -/
def StaysOut (s : Settings) (fs : FileSystem) (D : Location → Prop) (start : Stage) : Prop :=
  ∀ files target t, Reaches s fs start (.seeking files target (some t)) → ¬ D t.file

theorem StaysOut.of_reaches {start a : Stage} (out : StaysOut s fs D start) (reaches : Reaches s fs start a) :
    StaysOut s fs D a :=
  fun files target t further => out files target t (reaches.trans further)

/-- **Nothing is found beside the directories** of the search path. -/
theorem staysOut_of_dirs (beside : ∀ dir ∈ s.searchPath.dirs, ∀ l, dir <+: l → ¬ D l) (fs : FileSystem)
    (name : Text) : StaysOut s fs D (.seeking [] name (s.searchPath.find? fs name)) := by
  intro files target t reaches
  suffices found : t.dir ∈ s.searchPath.dirs ∧ t.dir <+: t.file from beside t.dir found.1 t.file found.2
  rcases reaches.cases_tail with same | ⟨_, _, step⟩
  · obtain ⟨-, -, found⟩ := Stage.seeking.inj same
    exact (SearchPath.of_findIn? found.symm).imp_right And.left
  · generalize stage : Stage.seeking files target (some t) = found at step
    cases step with
    | look =>
      obtain ⟨-, -, found⟩ := Stage.seeking.inj stage
      exact of_target? found.symm
    | read => cases stage

/-- A template that lies elsewhere was found elsewhere. -/
theorem not_dir_of_target? (whole : Whole D) {origin : Option Template} {target : Text} {t : Template}
    (found : target? s fs origin target = some t) (out : ¬ D t.file) : ¬ D t.dir :=
  fun inside => out (whole _ _ inside (of_target? found).2)

theorem target?_apart (whole : Whole D) (same : SameBut D fs fs') {origin : Option Template} {target : Text}
    (outside : ∀ t, origin = some t → ¬ D t.dir) (here : ∀ t, target? s fs origin target = some t → ¬ D t.file)
    (there : ∀ t, target? s fs' origin target = some t → ¬ D t.file) :
    target? s fs' origin target = target? s fs origin target := by
  unfold target? at here there ⊢
  by_cases sentinel : target = parentSentinel
  · simp only [if_pos sentinel] at here there ⊢
    cases origin with
    | none => rfl
    | some t => exact SearchPath.findAfter?_apart whole same (outside t rfl) here there
  · simp only [if_neg sentinel] at here there ⊢
    exact SearchPath.findIn?_apart whole same here there

/-- Following comes to the same, as long as the fuel lasts in both. -/
theorem outcome_apart (whole : Whole D) (same : SameBut D fs fs') (files files' : Nat) (c : Chain)
    (origin : Option Template) (source : Text) (outside : ∀ t, origin = some t → ¬ D t.dir)
    (here : StaysOut s fs D (.holding (visitedBy c origin) origin source))
    (there : StaysOut s fs' D (.holding (visitedBy c origin) origin source)) (distinct : (visitedBy c origin).Nodup)
    (lasts : Lasts files fs (visitedBy c origin)) (lasts' : Lasts files' fs' (visitedBy c origin)) :
    outcome s fs' files' c origin source = outcome s fs files c origin source := by
  unfold outcome
  cases target : (buildFile s c origin source).1.extendsTarget with
  | none => rfl
  | some target' =>
    have names := parent?_of_extendsTarget target
    have looked : Reaches s fs (.holding (visitedBy c origin) origin source) _ := .single (.look names)
    have looked' : Reaches s fs' (.holding (visitedBy c origin) origin source) _ := .single (.look names)
    dsimp only
    have found_same : target? s fs' origin target' = target? s fs origin target' := by
      refine target?_apart whole same outside (fun t found => ?_) fun t found => ?_
      · exact here _ _ t (found ▸ looked)
      · exact there _ _ t (found ▸ looked')
    rw [found_same] at looked' ⊢
    cases found : target? s fs origin target' with
    | none => rfl
    | some next =>
      rw [found] at looked looked'
      have out : ¬ D next.file := here _ _ next looked
      dsimp only
      by_cases visited : next.file ∈ visitedBy c origin
      · rw [if_pos visited, if_pos visited]
      · rw [if_neg visited, if_neg visited, same.readAt out]
        cases reads : fs.readAt next.file with
        | error e => rfl
        | ok further =>
          have reads' : fs'.readAt next.file = .ok further := (same.readAt out).trans reads
          obtain ⟨distinct', fewer, rfl, left⟩ := lasts.next distinct visited reads
          obtain ⟨-, fewer', rfl, left'⟩ := lasts'.next distinct visited reads'
          refine outcome_apart whole same fewer fewer' _ (some next) further ?_ ?_ ?_ distinct' left left'
          · rintro _ ⟨⟩
            exact not_dir_of_target? whole found out
          · exact here.of_reaches (looked.tail (.read visited reads))
          · exact there.of_reaches (looked'.tail (.read visited reads'))
termination_by files

/-- **The chain of a template** comes to the same, if no file on the way lies where the two differ. -/
theorem run_ofTemplate_apart (whole : Whole D) (same : SameBut D fs fs') {t : Template} (below : t.dir <+: t.file)
    {target : Text} (here : StaysOut s fs D (.seeking [] target (some t)))
    (there : StaysOut s fs' D (.seeking [] target (some t))) (log : List Event) :
    ((ofTemplate s fs' t).run log).1 = ((ofTemplate s fs t).run log).1 := by
  have out : ¬ D t.file := here _ _ t .refl
  rw [run_ofTemplate, run_ofTemplate, same.readAt out]
  cases reads : fs.readAt t.file with
  | error e => rfl
  | ok source =>
    have reads' : fs'.readAt t.file = .ok source := (same.readAt out).trans reads
    refine outcome_apart whole same _ _ {} (some t) source ?_ ?_ ?_ (List.pairwise_singleton ..) (lasts_entries fs _)
      (lasts_entries fs' _)
    · rintro _ ⟨⟩
      exact fun inside => out (whole _ _ inside below)
    · exact here.of_reaches (.single (.read List.not_mem_nil reads))
    · exact there.of_reaches (.single (.read List.not_mem_nil reads'))

end Chain

/-! ## Compiling -/

namespace Engine

variable {σ : Type} {D : Location → Prop} {e e' : Engine σ} {s s' : Session σ} {name : Text}

/-- **What is not found makes no difference** to what is compiled; neither does the cache. -/
theorem compile_apart (whole : Whole D) (same : SameBut D s.files s'.files) (handlers : s'.handlers = s.handlers)
    (registry : e'.registry = e.registry) (settings : e'.settings = e.settings)
    (here : Chain.StaysOut e.settings s.files D (e.sought s.files name))
    (there : Chain.StaysOut e.settings s'.files D (e.sought s'.files name)) :
    ((e'.compile name).run s').1 = ((e.compile name).run s).1 := by
  have lookup : e.settings.searchPath.find? s'.files name = e.settings.searchPath.find? s.files name := by
    refine SearchPath.findIn?_apart whole same (fun t found => ?_) fun t found => ?_
    · exact here [] name t (found ▸ .refl)
    · exact there [] name t (found ▸ .refl)
  rw [run_compile, run_compile, settings, lookup]
  cases found : e.settings.searchPath.find? s.files name with
  | none => rfl
  | some t =>
    rw [sought, found] at here
    rw [sought, lookup, found] at there
    dsimp only
    rw [compilationOf_eq, compilationOf_eq, settings,
      Chain.run_ofTemplate_apart whole same (SearchPath.of_findIn? found).2.1 here there]
    unfold compilationOfChain
    rw [registry, handlers]

end Engine

end TagTemplate
