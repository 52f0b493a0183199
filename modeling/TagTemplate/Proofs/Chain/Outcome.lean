/-
# Proofs.Chain.Outcome -- what a chain comes to, errors included

`Follows` says when a chain is built.  Where it is not, the error also depends on the
lookups and the texts of the files on the way alone: of the template that a chain
starts from only the file and what its `extends` finds matter (`run_ofTemplate_origin`),
and two file systems that agree on the templates on the way give the same chain or the
same error (`run_ofTemplate_agree`).

They need not have the same number of entries, so the fuel differs.  It makes no
difference as long as it lasts for every file that can still come (`Lasts`).
-/
import TagTemplate.Proofs.Chain
import TagTemplate.Proofs.Tree.Graft

namespace TagTemplate

set_option autoImplicit false

def Settings.extends? (s : Settings) (source : Text) : Option Text :=
  (Tree.build (Token.tokenize (Source.prepare s.options source)) (Source.prepare s.options source) {} {}).extendsTarget

namespace Chain

variable {s : Settings} {fs fs' : FileSystem}

/-- What a file extends is said by its source, whatever the chain is that it comes to. -/
theorem extendsTarget_buildFile (s : Settings) (c : Chain) (origin : Option Template) (source : Text) :
    (buildFile s c origin source).1.extendsTarget = s.extends? source :=
  (Tree.behind_build _ _ c.tree c.blocks).extendsTarget

/-! ## Fuel -/

/-- There is fuel for all files that can be read and are not part of a chain yet. -/
def Lasts (files : Nat) (fs : FileSystem) (visited : List Location) : Prop :=
  ∀ further : List Location, (visited ++ further).Nodup → (∀ f ∈ further, ∃ t, fs.readAt f = .ok t) →
    further.length ≤ files

theorem lasts_entries (fs : FileSystem) (visited : List Location) : Lasts (fs.entries.length + 1) fs visited := by
  intro further distinct readable
  have sub : further ⊆ fs.entries.map (·.1) := fun file mem =>
    have ⟨_, reads⟩ := readable file mem
    mem_entries_of_readAt reads
  have := ((List.nodup_append.1 distinct).2.1.subperm sub).length_le
  rw [List.length_map] at this
  exact Nat.le_succ_of_le this

/-- A further file uses up one unit. -/
theorem Lasts.next {files : Nat} {visited : List Location} (lasts : Lasts files fs visited) (distinct : visited.Nodup)
    {file : Location} (fresh : file ∉ visited) {t : Text} (reads : fs.readAt file = .ok t) :
    (visited ++ [file]).Nodup ∧ ∃ fewer, files = fewer + 1 ∧ Lasts fewer fs (visited ++ [file]) := by
  have distinct' : (visited ++ [file]).Nodup := by
    refine List.nodup_append.2 ⟨distinct, List.pairwise_singleton .., fun f mem f' mem' same => ?_⟩
    exact fresh (List.mem_singleton.1 mem' ▸ same ▸ mem)
  refine ⟨distinct', ?_⟩
  have one := lasts [file] distinct' (List.forall_mem_singleton.2 ⟨t, reads⟩)
  obtain ⟨fewer, rfl⟩ := Nat.exists_eq_add_of_le' one
  refine ⟨fewer, rfl, fun further distinct readable => ?_⟩
  rw [List.append_assoc] at distinct
  have more := lasts ([file] ++ further) distinct (List.forall_mem_append.2
    ⟨List.forall_mem_singleton.2 ⟨t, reads⟩, readable⟩)
  exact Nat.le_of_succ_le_succ (by simpa [Nat.add_comm] using more)

/-! ## What matters -/

theorem run_ofTemplate (s : Settings) (fs : FileSystem) (t : Template) (log : List Event) :
    ((ofTemplate s fs t).run log).1 =
      match fs.readAt t.file with
      | .error e => .error (.io e)
      | .ok source => outcome s fs (fs.entries.length + 1) {} (some t) source := by
  unfold ofTemplate
  rw [run_bind]
  cases fs.readAt t.file with
  | error e => rfl
  | ok source => exact run_follow ..

/-- **Of the template that a chain starts from** only the file and what it extends matter. -/
theorem run_ofTemplate_origin {t t' : Template} (file : t'.file = t.file)
    (lookups : ∀ source target, fs.readAt t.file = .ok source → s.extends? source = some target →
      target? s fs (some t') target = target? s fs (some t) target) (log : List Event) :
    ((ofTemplate s fs t').run log).1 = ((ofTemplate s fs t).run log).1 := by
  rw [run_ofTemplate, run_ofTemplate, file]
  cases reads : fs.readAt t.file with
  | error e => rfl
  | ok source =>
    have build : buildFile s {} (some t') source = buildFile s {} (some t) source := by
      simp only [buildFile, Option.map_some, file]
    have visited : visitedBy {} (some t') = visitedBy {} (some t) := by
      rw [visitedBy_some, visitedBy_some, file]
    unfold outcome
    simp only [build, visited]
    cases target : (buildFile s {} (some t) source).1.extendsTarget with
    | none => rfl
    | some target' =>
      rw [extendsTarget_buildFile] at target
      simp only [lookups source target' reads target]

/-- Two file systems agree on some templates: on their texts, and on what they extend, which is one of them. -/
structure Agree (s : Settings) (fs fs' : FileSystem) (known : Template → Prop) : Prop where
  texts : ∀ t, known t → fs'.readAt t.file = fs.readAt t.file
  lookups : ∀ t source target, known t → fs.readAt t.file = .ok source → s.extends? source = some target →
    target? s fs' (some t) target = target? s fs (some t) target ∧
      ∀ next, target? s fs (some t) target = some next → known next

/-- Following comes to the same in both, as long as the fuel lasts. -/
theorem outcome_agree {known : Template → Prop} (agree : Agree s fs fs' known) (files files' : Nat) (c : Chain)
    (t : Template) (source : Text) (isKnown : known t) (reads : fs.readAt t.file = .ok source)
    (distinct : (visitedBy c (some t)).Nodup) (lasts : Lasts files fs (visitedBy c (some t)))
    (lasts' : Lasts files' fs' (visitedBy c (some t))) :
    outcome s fs' files' c (some t) source = outcome s fs files c (some t) source := by
  unfold outcome
  cases target : (buildFile s c (some t) source).1.extendsTarget with
  | none => rfl
  | some target' =>
    dsimp only
    rw [extendsTarget_buildFile] at target
    obtain ⟨same, closed⟩ := agree.lookups t source target' isKnown reads target
    rw [same]
    cases found : target? s fs (some t) target' with
    | none => rfl
    | some next =>
      dsimp only
      have nextKnown := closed next found
      by_cases visited : next.file ∈ visitedBy c (some t)
      · rw [if_pos visited, if_pos visited]
      · rw [if_neg visited, if_neg visited, agree.texts next nextKnown]
        cases further : fs.readAt next.file with
        | error e => rfl
        | ok text =>
          have further' := (agree.texts next nextKnown).trans further
          obtain ⟨distinct', fewer, rfl, left⟩ := lasts.next distinct visited further
          obtain ⟨-, fewer', rfl, left'⟩ := lasts'.next distinct visited further'
          exact outcome_agree agree fewer fewer' _ next text nextKnown further distinct' left left'
termination_by files

/-- **File systems that agree on the templates on the way** give the same chain, or the same error. -/
theorem run_ofTemplate_agree {known : Template → Prop} (agree : Agree s fs fs' known) {t : Template} (isKnown : known t)
    (log : List Event) : ((ofTemplate s fs' t).run log).1 = ((ofTemplate s fs t).run log).1 := by
  rw [run_ofTemplate, run_ofTemplate, agree.texts t isKnown]
  cases reads : fs.readAt t.file with
  | error e => rfl
  | ok source =>
    have distinct : (visitedBy {} (some t)).Nodup := List.pairwise_singleton ..
    exact outcome_agree agree _ _ {} t source isKnown reads distinct (lasts_entries fs _) (lasts_entries fs' _)

/-- A text in memory comes to the same in both, if what it extends is one of the templates. -/
theorem run_ofSource_agree {known : Template → Prop} (agree : Agree s fs fs' known) {source : Text}
    (lookups : ∀ target, s.extends? source = some target → target? s fs' none target = target? s fs none target ∧
      ∀ next, target? s fs none target = some next → known next) (log : List Event) :
    ((ofSource s fs' none source).run log).1 = ((ofSource s fs none source).run log).1 := by
  rw [ofSource, ofSource, run_follow, run_follow]
  unfold outcome
  cases target : (buildFile s {} none source).1.extendsTarget with
  | none => rfl
  | some target' =>
    dsimp only
    rw [extendsTarget_buildFile] at target
    obtain ⟨same, closed⟩ := lookups target' target
    rw [same]
    cases found : target? s fs none target' with
    | none => rfl
    | some next =>
      have isKnown := closed next found
      have visited : next.file ∉ visitedBy {} none := List.not_mem_nil
      dsimp only
      rw [if_neg visited, if_neg visited, agree.texts next isKnown]
      cases reads : fs.readAt next.file with
      | error e => rfl
      | ok text =>
        obtain ⟨distinct, left⟩ := (lasts_entries fs []).next List.nodup_nil visited reads
        obtain ⟨-, left'⟩ := (lasts_entries fs' []).next List.nodup_nil visited ((agree.texts next isKnown).trans reads)
        obtain ⟨fewer, eq, lasts⟩ := left
        obtain ⟨fewer', eq', lasts'⟩ := left'
        cases eq
        cases eq'
        exact outcome_agree agree _ _ _ next text isKnown reads distinct lasts lasts'

end Chain

end TagTemplate
