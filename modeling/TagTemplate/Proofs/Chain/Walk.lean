/-
# Proofs.Chain.Walk -- how following a chain ends

What a source extends is said by the first `extends` tag with a parent among its
tokens (`extends?_eq`), wherever it stands.

A chain is walked in two kinds of steps (`Step`): a text is searched for such a tag
and its target is looked up, and the text of a file that was found is read, if the
file is new.  At most one step is possible at a stage, and a stage without a step is
one of four (`Verdict`): a text that extends nothing, a target that is not found, a
file that is part of the chain already, or one that holds no text.

Every walk ends (`exists_verdict`), since no file comes twice and there are only so
many.  So the fuel of `Chain.follow` is never what ends it, and where the walk ends
is what following comes to (`Decides`).
-/
import Mathlib.Logic.Relation
import TagTemplate.Proofs.Chain.Outcome

namespace TagTemplate

set_option autoImplicit false

/-! ## What a source extends -/

/-- The parent that a token names, if it is an `extends` tag with one. -/
def Token.parent? (t : Token) : Option Text :=
  match t.fragment with
  | .text _ => none
  | .tag tag =>
    match tag.shape with
    | .value _ => if tag.name = extendsTag then tag.attributes.get? "parent".toList else none
    | _ => none

/-- The parent that the first `extends` tag with one names. -/
def Settings.parent? (s : Settings) (source : Text) : Option Text :=
  (Token.tokenize (Source.prepare s.options source)).findSome? Token.parent?

namespace Builder

theorem extendsTarget_foldl (step : Builder → NodeId → Builder)
    (each : ∀ b id, (step b id).extendsTarget = b.extendsTarget) (ids : List NodeId) :
    ∀ b : Builder, (ids.foldl step b).extendsTarget = b.extendsTarget := by
  induction ids with
  | nil => intro b; rfl
  | cons id ids ih => intro b; rw [List.foldl_cons, ih, each]

theorem extendsTarget_close (b : Builder) (id : NodeId) : (b.close id).extendsTarget = b.extendsTarget := by
  unfold close
  dsimp only
  split <;> rfl

theorem extendsTarget_openBlock (b : Builder) (tag : Tag) (selfClosing : Bool) (offset : Nat) :
    (b.openBlock tag selfClosing offset).extendsTarget = b.extendsTarget := by
  cases selfClosing with
  | true => exact extendsTarget_close ..
  | false => rfl

theorem extendsTarget_closeBlock (b : Builder) (name : Text) (offset : Nat) :
    (b.closeBlock name offset).extendsTarget = b.extendsTarget := by
  unfold closeBlock
  split
  · rfl
  · exact (extendsTarget_close ..).trans (extendsTarget_foldl abandon (fun _ _ => rfl) _ b)

/-- The first target that is named stays. -/
theorem extendsTarget_push (b : Builder) (t : Token) :
    (b.push t).extendsTarget = b.extendsTarget.or t.parent? := by
  unfold push Token.parent?
  cases t.fragment with
  | text x => simp [add]
  | tag tag =>
    dsimp only
    cases tag.shape with
    | opening raw selfClosing => simp [extendsTarget_openBlock]
    | closing => simp [extendsTarget_closeBlock]
    | value raw =>
      dsimp only
      unfold pushValue
      by_cases isExtends : tag.name = extendsTag
      · rw [if_pos isExtends, if_pos isExtends]
        cases named : b.extendsTarget <;> simp [named]
      · rw [if_neg isExtends, if_neg isExtends, Option.or_none]
        split <;> rfl

theorem extendsTarget_foldl_push (tokens : List Token) :
    ∀ b : Builder, (tokens.foldl push b).extendsTarget = b.extendsTarget.or (tokens.findSome? Token.parent?) := by
  induction tokens with
  | nil => simp
  | cons t tokens ih =>
    intro b
    rw [List.foldl_cons, ih, extendsTarget_push, Option.or_assoc, List.findSome?_cons]
    cases t.parent? <;> rfl

end Builder

/-- **What a source extends** is said by the first `extends` tag with a parent. -/
theorem Settings.extends?_eq (s : Settings) (source : Text) : s.extends? source = s.parent? source := by
  unfold Settings.extends? Tree.build Builder.finish
  rw [Builder.extendsTarget_foldl Builder.reportMissing fun _ _ => rfl, Builder.extendsTarget_foldl_push]
  rfl

namespace Chain

/-! ## Walking -/

/-- A stage of a walk along a chain, with the files that were read so far. -/
inductive Stage where
  /-- A target was looked up. -/
  | seeking (files : List Location) (target : Text) (found : Option Template)
  /-- The text of a template was read, or there is one in memory. -/
  | holding (files : List Location) (origin : Option Template) (source : Text)

def Stage.files : Stage → List Location
  | .seeking files _ _ => files
  | .holding files _ _ => files

inductive Step (s : Settings) (fs : FileSystem) : Stage → Stage → Prop where
  /-- What the text extends is looked up. -/
  | look {files : List Location} {origin : Option Template} {source target : Text}
      (names : s.parent? source = some target) :
      Step s fs (.holding files origin source) (.seeking files target (target? s fs origin target))
  /-- A file that is not part of the chain yet is read. -/
  | read {files : List Location} {target source : Text} {next : Template} (fresh : next.file ∉ files)
      (reads : fs.readAt next.file = .ok source) :
      Step s fs (.seeking files target (some next)) (.holding (files ++ [next.file]) (some next) source)

abbrev Reaches (s : Settings) (fs : FileSystem) : Stage → Stage → Prop := Relation.ReflTransGen (Step s fs)

/-- How a walk ends at a stage: well, or with an obstacle. -/
inductive Verdict (s : Settings) (fs : FileSystem) : Stage → Except Error Unit → Prop where
  /-- The text extends nothing. -/
  | whole {files : List Location} {origin : Option Template} {source : Text} (names : s.parent? source = none) :
      Verdict s fs (.holding files origin source) (.ok ())
  /-- The target is not found. -/
  | missing {files : List Location} {target : Text} :
      Verdict s fs (.seeking files target none) (.error (.templateNotFound target))
  /-- The target is part of the chain already. -/
  | cycle {files : List Location} {target : Text} {next : Template} (visited : next.file ∈ files) :
      Verdict s fs (.seeking files target (some next)) (.error (.extendsCycle next.file))
  /-- The file of the target holds bytes that are no text. -/
  | binary {files : List Location} {target : Text} {next : Template} {bytes : List UInt8} {mode modified : Nat}
      (fresh : next.file ∉ files) (holds : fs.get? next.file = some (.file (.binary bytes) mode modified)) :
      Verdict s fs (.seeking files target (some next)) (.error (.io .notText))

/-- What walking from a stage comes to: no walk goes on for ever or meets a file twice, and where the walk
ends is the result. -/
structure Decides (s : Settings) (fs : FileSystem) (start : Stage) (result : Except Error Unit) : Prop where
  ends : Acc (fun b a => Step s fs a b) start
  distinct : ∀ a, Reaches s fs start a → a.files.Nodup
  verdict : ∀ r, result = r ↔ ∃ a, Reaches s fs start a ∧ Verdict s fs a r

variable {s : Settings} {fs : FileSystem}

theorem Step.unique {a b c : Stage} (one : Step s fs a b) (other : Step s fs a c) : b = c := by
  cases one with
  | look names =>
    cases other with
    | look names' => cases names.symm.trans names'; rfl
  | read _ reads =>
    cases other with
    | read _ reads' => cases reads.symm.trans reads'; rfl

/-- Nothing is done after a verdict. -/
theorem Verdict.no_step {a b : Stage} {r : Except Error Unit} (verdict : Verdict s fs a r) : ¬ Step s fs a b := by
  intro step
  cases step with
  | look names =>
    cases verdict with
    | whole none => rw [none] at names; cases names
  | read fresh reads =>
    cases verdict with
    | cycle visited => exact fresh visited
    | binary _ holds =>
      rw [FileSystem.readAt, holds] at reads
      cases reads

theorem Verdict.unique {a : Stage} {r r' : Except Error Unit} (one : Verdict s fs a r) (other : Verdict s fs a r') :
    r = r' := by
  cases one with
  | whole _ => cases other; rfl
  | missing => cases other; rfl
  | cycle visited =>
    cases other with
    | cycle _ => rfl
    | binary fresh _ => exact absurd visited fresh
  | binary fresh _ =>
    cases other with
    | cycle visited => exact absurd visited fresh
    | binary _ _ => rfl

/-- There is one verdict on a walk. -/
theorem unique_verdict {start a b : Stage} {r r' : Except Error Unit} (toA : Reaches s fs start a)
    (verdict : Verdict s fs a r) (toB : Reaches s fs start b) (verdict' : Verdict s fs b r') : r = r' := by
  have unique : Relator.RightUnique (Step s fs) := fun _ _ _ one other => one.unique other
  have same : a = b := by
    rcases Relation.ReflTransGen.total_of_right_unique unique toA toB with more | more
    · rcases more.cases_head with same | ⟨_, step, _⟩
      · exact same
      · exact absurd step verdict.no_step
    · rcases more.cases_head with same | ⟨_, step, _⟩
      · exact same.symm
      · exact absurd step verdict'.no_step
  subst same
  exact verdict.unique verdict'

/-- A walk that comes to a verdict is finite. -/
theorem acc_of_verdict {start a : Stage} {r : Except Error Unit} (reaches : Reaches s fs start a)
    (verdict : Verdict s fs a r) : Acc (fun b a => Step s fs a b) start := by
  induction reaches using Relation.ReflTransGen.head_induction_on with
  | refl => exact ⟨_, fun _ step => absurd step verdict.no_step⟩
  | head first _ ih =>
    refine ⟨_, fun _ step => ?_⟩
    rw [step.unique first]
    exact ih

/-- No file is read twice. -/
theorem nodup_of_reaches {start a : Stage} (reaches : Reaches s fs start a) (distinct : start.files.Nodup) :
    a.files.Nodup := by
  induction reaches with
  | refl => exact distinct
  | tail _ step ih =>
    cases step with
    | look _ => exact ih
    | read fresh _ =>
      show List.Nodup (_ ++ _)
      simpa [List.nodup_append, Stage.files] using ⟨ih, fun f mem same => fresh (same ▸ mem)⟩

theorem decides_of_verdict {start a : Stage} {result : Except Error Unit} (distinct : start.files.Nodup)
    (reaches : Reaches s fs start a) (verdict : Verdict s fs a result) : Decides s fs start result where
  ends := acc_of_verdict reaches verdict
  distinct _ reaches' := nodup_of_reaches reaches' distinct
  verdict r := by
    constructor
    · rintro rfl
      exact ⟨a, reaches, verdict⟩
    · rintro ⟨_, reaches', verdict'⟩
      exact unique_verdict reaches verdict reaches' verdict'

/-! ## Following is walking -/

/-- What is found is a file, so all that can be wrong with it is that it holds no text. -/
theorem readAt_of_isFileAt {file : Location} (isFile : fs.isFileAt file = true) :
    (∃ source, fs.readAt file = .ok source) ∨
      ∃ bytes mode modified, fs.get? file = some (.file (.binary bytes) mode modified) := by
  obtain ⟨contents, mode, modified, holds⟩ := FileSystem.exists_of_isFileAt isFile
  cases contents with
  | text source => exact .inl ⟨source, by simp [FileSystem.readAt, holds, Contents.text?]⟩
  | binary bytes => exact .inr ⟨bytes, mode, modified, holds⟩

theorem isFileAt_of_target? {origin : Option Template} {target : Text} {next : Template}
    (found : target? s fs origin target = some next) : fs.isFileAt next.file = true := by
  unfold target? at found
  split at found
  · obtain ⟨_, _, found⟩ := Option.bind_eq_some_iff.1 found
    exact (SearchPath.of_findAfter? found).2.2
  · exact (SearchPath.of_findIn? found).2.2

/-- What a built file extends is the parent that its text names. -/
theorem parent?_of_extendsTarget {c : Chain} {origin : Option Template} {source target : Text}
    (extendsTarget : (buildFile s c origin source).1.extendsTarget = some target) : s.parent? source = some target := by
  rw [← Settings.extends?_eq, ← extendsTarget_buildFile s c origin]
  exact extendsTarget

/-- **Following comes to the end of the walk**, as long as the fuel lasts. -/
theorem exists_verdict (fuel : Nat) (c : Chain) (origin : Option Template) (source : Text)
    (distinct : (visitedBy c origin).Nodup) (lasts : Lasts fuel fs (visitedBy c origin)) :
    ∃ a, Reaches s fs (.holding (visitedBy c origin) origin source) a ∧
      Verdict s fs a ((outcome s fs fuel c origin source).map fun _ => ()) := by
  unfold outcome
  rw [extendsTarget_buildFile, Settings.extends?_eq]
  cases names : s.parent? source with
  | none => exact ⟨_, .refl, .whole names⟩
  | some target =>
    have looked : Reaches s fs (.holding (visitedBy c origin) origin source) _ := .single (.look names)
    dsimp only
    cases found : target? s fs origin target with
    | none =>
      rw [found] at looked
      exact ⟨_, looked, .missing⟩
    | some next =>
      rw [found] at looked
      dsimp only
      by_cases visited : next.file ∈ visitedBy c origin
      · rw [if_pos visited]
        exact ⟨_, looked, .cycle visited⟩
      · rw [if_neg visited]
        rcases readAt_of_isFileAt (isFileAt_of_target? found) with ⟨further, reads⟩ | ⟨bytes, mode, modified, holds⟩
        · obtain ⟨distinct', fewer, rfl, left⟩ := lasts.next distinct visited reads
          obtain ⟨a, reaches, verdict⟩ := exists_verdict fewer
            { (buildFile s c origin source).2 with visited := visitedBy c origin } (some next) further distinct' left
          simp only [reads]
          exact ⟨a, (looked.tail (.read visited reads)).trans reaches, verdict⟩
        · have reads : fs.readAt next.file = .error .notText := by
            rw [FileSystem.readAt, holds]
            rfl
          rw [reads]
          exact ⟨_, looked, .binary visited holds⟩
termination_by fuel

/-- **The chain of a text** is decided by the walk from it. -/
theorem decides_ofSource (s : Settings) (fs : FileSystem) (source : Text) (log : List Event) :
    Decides s fs (.holding [] none source) (((ofSource s fs none source).run log).1.map fun _ => ()) := by
  rw [ofSource, run_follow]
  obtain ⟨a, reaches, verdict⟩ := exists_verdict (s := s) (fs.entries.length + 1) {} none source List.nodup_nil
    (lasts_entries fs [])
  exact decides_of_verdict List.nodup_nil reaches verdict

/-- **The chain of a template that was looked up** is decided by the walk from there. -/
theorem decides_ofTemplate {t : Template} (isFile : fs.isFileAt t.file = true) (target : Text) (log : List Event) :
    Decides s fs (.seeking [] target (some t)) (((ofTemplate s fs t).run log).1.map fun _ => ()) := by
  rw [run_ofTemplate]
  rcases readAt_of_isFileAt isFile with ⟨source, reads⟩ | ⟨bytes, mode, modified, holds⟩
  · rw [reads]
    obtain ⟨a, reaches, verdict⟩ := exists_verdict (s := s) (fs.entries.length + 1) {} (some t) source
      (List.pairwise_singleton ..) (lasts_entries fs _)
    exact decides_of_verdict List.nodup_nil (.head (.read List.not_mem_nil reads) reaches) verdict
  · have reads : fs.readAt t.file = .error .notText := by
      rw [FileSystem.readAt, holds]
      rfl
    rw [reads]
    exact decides_of_verdict List.nodup_nil .refl (.binary List.not_mem_nil holds)

end Chain

end TagTemplate
