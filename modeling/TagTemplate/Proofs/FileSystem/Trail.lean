/-
# Proofs.FileSystem.Trail -- where a path leads, and what leaves it alone

The segments of a path lead from one location to the next, whatever is there
(`Path.trail`).  Walking the path asks what is at these locations and at no others
(`walk_congr`), and where it succeeds it ends at the last of them (`walk_eq_target`).
So does writing a file: it goes where its path leads (`target_of_place`).

An operation that puts or takes away entries elsewhere leaves the locations of a trail
alone, with the modification times of the directories among them (`Leaves`).
-/
import Mathlib.Data.List.TakeWhile
import TagTemplate.Proofs.FileSystem

namespace TagTemplate

set_option autoImplicit false

/-! ## Trails -/

namespace Path

def next (here : Location) (segment : Text) : Location :=
  if segment = [] ∨ segment = ['.'] then here
  else if segment = ['.', '.'] then here.dropLast
  else here ++ [segment]

def target (here : Location) (segments : List Text) : Location := segments.foldl next here

def trail (here : Location) : List Text → List Location
  | [] => [here]
  | s :: ss => here :: trail (next here s) ss

theorem target_append (here : Location) (segments further : List Text) :
    target here (segments ++ further) = target (target here segments) further :=
  List.foldl_append

theorem target_mem_trail (segments further : List Text) :
    ∀ here, target here segments ∈ trail here (segments ++ further) := by
  induction segments with
  | nil => exact fun here => by cases further <;> exact List.mem_cons_self ..
  | cons s ss ih => exact fun here => List.mem_cons_of_mem _ (ih (next here s))

/-- Empty segments lead nowhere. -/
theorem target_of_empty {segments : List Text} (empty : ∀ s ∈ segments, s = []) (here : Location) :
    target here segments = here := by
  induction segments with
  | nil => rfl
  | cons s ss ih =>
    obtain rfl := empty s (List.mem_cons_self ..)
    exact ih fun s mem => empty s (List.mem_cons_of_mem _ mem)

/-- After the last name of a path there are slashes only. -/
theorem segments_of_lastName? {path : Text} {before : List Text} {name : Text}
    (last : lastName? path = some (before, name)) :
    name ≠ [] ∧ ∃ slashes, segments path = before ++ name :: slashes ∧ ∀ s ∈ slashes, s = [] := by
  have split : (segments path).reverse.takeWhile (·.isEmpty) ++ (segments path).reverse.dropWhile (·.isEmpty)
      = (segments path).reverse := List.takeWhile_append_dropWhile
  unfold lastName? at last
  cases found : (segments path).reverse.dropWhile (·.isEmpty) with
  | nil =>
    rw [found] at last
    cases last
  | cons name' reversed =>
    rw [found] at last split
    cases last
    refine ⟨?_, ((segments path).reverse.takeWhile (·.isEmpty)).reverse, ?_, fun s mem => ?_⟩
    · have first := List.head?_dropWhile_not (·.isEmpty) (segments path).reverse
      rw [found] at first
      rintro rfl
      cases first
    · have reversed_eq := congrArg List.reverse split
      rw [List.reverse_reverse, List.reverse_append, List.reverse_cons, List.append_assoc] at reversed_eq
      exact reversed_eq.symm
    · exact List.isEmpty_iff.1 (List.mem_takeWhile_imp (List.mem_reverse.1 mem))

end Path

namespace FileSystem

open TagTemplate.Path

variable {fs fs' : FileSystem}

/-! ## Walking -/

/-- Walking ends where the segments lead. -/
theorem walk_eq_target (segments : List Text) : ∀ {here l : Location}, fs.walk here segments = .ok l →
    l = target here segments := by
  induction segments with
  | nil =>
    rintro here l ⟨⟩
    rfl
  | cons s ss ih =>
    intro here l walks
    unfold walk at walks
    show l = target (next here s) ss
    unfold next
    split at walks
    · cases walks
    split at walks
    · rename_i idle
      rw [if_pos idle]
      exact ih walks
    rename_i named
    rw [if_neg named]
    split at walks
    · rename_i up
      rw [if_pos up]
      exact ih walks
    rename_i down
    rw [if_neg down]
    split at walks
    · cases walks
    split at walks
    · cases walks
    exact ih walks

/-- Walking asks what is on the trail. -/
theorem walk_congr (segments : List Text) : ∀ {here : Location},
    (∀ l ∈ trail here segments, fs'.kind? l = fs.kind? l) → fs'.walk here segments = fs.walk here segments := by
  induction segments with
  | nil => exact fun _ => rfl
  | cons s ss ih =>
    intro here same
    have further := ih fun l mem => same l (List.mem_cons_of_mem _ mem)
    unfold walk
    rw [isDirAt_congr (same here (List.mem_cons_self ..))]
    unfold next at further
    split
    · rfl
    split
    · rename_i idle
      rwa [if_pos idle] at further
    rename_i named
    rw [if_neg named] at further
    split
    · rename_i up
      rwa [if_pos up] at further
    rename_i down
    rw [if_neg down] at further
    have there : fs'.kind? (here ++ [s]) = fs.kind? (here ++ [s]) := by
      have mem : next here s ∈ trail here (s :: ss) := target_mem_trail [s] ss here
      rw [next, if_neg named, if_neg down] at mem
      exact same _ mem
    have missing : (fs'.get? (here ++ [s])).isNone = (fs.get? (here ++ [s])).isNone := by
      have none := congrArg Option.isNone there
      rwa [kind?, kind?, Option.isNone_map, Option.isNone_map] at none
    rw [missing, further]

def trailOf (fs : FileSystem) (path : Text) : List Location := trail (fs.startOf path) (segments path)

def targetOf (fs : FileSystem) (path : Text) : Location := target (fs.startOf path) (segments path)

theorem targetOf_mem_trailOf (fs : FileSystem) (path : Text) : fs.targetOf path ∈ fs.trailOf path := by
  have mem := target_mem_trail (segments path) [] (fs.startOf path)
  rwa [List.append_nil] at mem

theorem eq_targetOf_of_reach {path : Text} {l : Location} (reached : fs.reach path = .ok l) : l = fs.targetOf path := by
  unfold reach resolve at reached
  split at reached
  · cases reached
  split at reached
  · cases reached
  split at reached
  · cases reached
  exact walk_eq_target _ reached

theorem startOf_congr (workDir : fs'.workDir = fs.workDir) (path : Text) : fs'.startOf path = fs.startOf path := by
  rw [startOf, startOf, workDir]

theorem reach_congr (workDir : fs'.workDir = fs.workDir) {path : Text}
    (same : ∀ l ∈ fs.trailOf path, fs'.kind? l = fs.kind? l) : fs'.reach path = fs.reach path := by
  rw [reach, reach, resolve, resolve, startOf_congr workDir, walk_congr _ same]

/-- A file is written where its path leads to, in a directory that its path leads through. -/
theorem target_of_place {path : Text} {here : Location} {name : Text} (placed : fs.place path = .ok (here, name)) :
    here ∈ fs.trailOf path ∧ here ++ [name] = fs.targetOf path := by
  unfold place at placed
  split at placed
  · cases placed
  split at placed
  · cases placed
  split at placed
  · cases placed
  split at placed
  · cases placed
  rename_i before name' last
  split at placed
  · cases placed
  rename_i here' walks
  split at placed
  · cases placed
  split at placed
  · cases placed
  rename_i down
  cases placed
  obtain ⟨named, slashes, segments_eq, empty⟩ := segments_of_lastName? last
  obtain rfl := walk_eq_target _ walks
  constructor
  · rw [trailOf, segments_eq]
    exact target_mem_trail before (name :: slashes) _
  · rw [targetOf, segments_eq, target_append]
    show _ = target (next (target (fs.startOf path) before) name) slashes
    have idle : ¬ (name = [] ∨ name = ['.']) := fun or => or.elim named fun dot => down (.inl dot)
    rw [target_of_empty empty, next, if_neg idle, if_neg fun up => down (.inr up)]

/-! ## Operations elsewhere -/

/-- The entries of some locations are left alone. -/
structure Leaves (P : Location → Prop) (before after : FileSystem) : Prop where
  entry : ∀ l, P l → after.get? l = before.get? l
  workDir : after.workDir = before.workDir

section Leaves

variable {P : Location → Prop} {made written moved : FileSystem} {l : Location}

theorem Leaves.refl (P : Location → Prop) (fs : FileSystem) : Leaves P fs fs := ⟨fun _ _ => rfl, rfl⟩

theorem Leaves.trans (one : Leaves P fs made) (two : Leaves P made fs') : Leaves P fs fs' where
  entry l kept := (two.entry l kept).trans (one.entry l kept)
  workDir := two.workDir.trans one.workDir

theorem Leaves.kind? (leaves : Leaves P fs fs') (kept : P l) : fs'.kind? l = fs.kind? l :=
  congrArg (Option.map Entry.isFile) (leaves.entry l kept)

theorem Leaves.file? (leaves : Leaves P fs fs') (kept : P l) : fs'.file? l = fs.file? l :=
  congrArg (Option.filter Entry.isFile) (leaves.entry l kept)

theorem leaves_set (fs : FileSystem) (elsewhere : ¬ P l) (e : Entry) : Leaves P fs (fs.set l e) where
  entry m kept := by
    rw [get?_set, if_neg]
    rintro rfl
    exact elsewhere kept
  workDir := rfl

theorem leaves_erase (fs : FileSystem) (elsewhere : ∀ m, l <+: m → ¬ P m) : Leaves P fs (fs.erase l) where
  entry m kept := by
    rw [get?_erase, if_neg]
    exact fun below => elsewhere m (List.isPrefixOf_iff_prefix.1 below) kept
  workDir := rfl

theorem leaves_touch (fs : FileSystem) (elsewhere : ¬ P l) : Leaves P fs (fs.touch l) := by
  unfold touch
  split
  · exact leaves_set fs elsewhere _
  · exact .refl P fs

theorem leaves_setMode (fs : FileSystem) (elsewhere : ¬ P l) (mode : Nat) : Leaves P fs (fs.setMode l mode) := by
  unfold setMode
  split
  · exact leaves_set fs elsewhere _
  · exact .refl P fs

theorem leaves_setModified (fs : FileSystem) (elsewhere : ¬ P l) (modified : Nat) :
    Leaves P fs (fs.setModified l modified) := by
  unfold setModified
  split
  · exact leaves_set fs elsewhere _
  · exact .refl P fs

theorem leaves_addDirectory (fs : FileSystem) (elsewhere : ¬ P l) (parent : ¬ P l.dropLast) :
    Leaves P fs (fs.addDirectory l) :=
  (leaves_set fs elsewhere _).trans (leaves_touch _ parent)

theorem leaves_remove (fs : FileSystem) (elsewhere : ∀ m, l <+: m → ¬ P m) (parent : ¬ P l.dropLast) :
    Leaves P fs (fs.remove l) :=
  (leaves_erase fs elsewhere).trans (leaves_touch _ parent)

theorem leaves_writeAt {c : Contents} (ok : fs.writeAt l c = .ok written) (elsewhere : ¬ P l)
    (parent : ¬ P l.dropLast) : Leaves P fs written := by
  unfold writeAt at ok
  split at ok
  · cases ok
  · cases ok
    exact leaves_set fs elsewhere _
  · cases ok
    exact (leaves_set fs elsewhere _).trans (leaves_touch _ parent)

theorem leaves_move {source target : Location} (ok : fs.move source target = .ok moved)
    (elsewhere : ∀ m, source <+: m → ¬ P m) (parent : ¬ P source.dropLast) (elsewhere' : ¬ P target)
    (parent' : ¬ P target.dropLast) : Leaves P fs moved := by
  unfold move at ok
  split at ok
  · cases ok
  split at ok
  · cases ok
  cases ok
  exact (((leaves_erase fs elsewhere).trans (leaves_set _ elsewhere' _)).trans (leaves_touch _ parent)).trans
    (leaves_touch _ parent')

/-- Making directories leaves everything alone but the way to them. -/
theorem leaves_makeBelow (names : List Text) : ∀ {fs : FileSystem} {here : Location},
    (∀ m, m <+: names → ¬ P (here ++ m)) → fs.makeBelow here names = .ok made → Leaves P fs made := by
  induction names with
  | nil =>
    rintro _ _ - ⟨⟩
    exact .refl P _
  | cons name names ih =>
    intro fs here elsewhere ok
    have on : ¬ P here := by simpa using elsewhere [] List.nil_prefix
    have first : ¬ P (here ++ [name]) := elsewhere [name] (List.prefix_append [name] names)
    have further : ∀ m, m <+: names → ¬ P (here ++ [name] ++ m) := by
      intro m below
      rw [← List.append_cons]
      exact elsewhere (name :: m) (List.cons_prefix_cons.2 ⟨rfl, below⟩)
    unfold makeBelow at ok
    split at ok
    · exact ih further ok
    · cases ok
    · exact (leaves_addDirectory fs first (by rwa [List.dropLast_concat])).trans (ih further ok)

end Leaves

end FileSystem

end TagTemplate
