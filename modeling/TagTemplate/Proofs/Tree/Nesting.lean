/-
# Proofs.Tree.Nesting -- the diagnostics of a file say how its tags nest

While tokens are read, the blocks that wait for their closing tag are those of the
open path, and nothing else (`Builder.Nests`).  A closing tag whose name none of them
carries is reported there and then; any other takes its block and those inside of it
from the path, and the latter are reported; what is left at the end is reported as
well.  Each token is one of these steps (`nests_closeBlock` for the closing tags).

The names on the path are the stack of a reader that checks the nesting of tags
without a tree (`completes`), and what that reader accepts are the well-nested
sequences (`Balanced`).  So there is nothing to report exactly when the tags nest.
-/
import Mathlib.Data.Option.Basic
import TagTemplate.Proofs.Tree.Graft
import TagTemplate.Proofs.Tree.Unclosed

namespace TagTemplate

set_option autoImplicit false

/-! ## Tokens that open and close -/

namespace Token

/-- The name of a tag that opens a block and leaves it open. -/
def opens? (t : Token) : Option Text :=
  match t.fragment with
  | .text _ => none
  | .tag tag =>
    match tag.shape with
    | .opening _ false => some tag.name
    | _ => none

def closes? (t : Token) : Option Text :=
  match t.fragment with
  | .text _ => none
  | .tag tag => if tag.shape = .closing then some tag.name else none

theorem exists_of_opens? {t : Token} {name : Text} (opens : t.opens? = some name) :
    ∃ tag raw, t.fragment = .tag tag ∧ tag.shape = .opening raw false ∧ tag.name = name := by
  unfold opens? at opens
  split at opens
  · cases opens
  · rename_i tag fragment
    split at opens
    · rename_i raw shape
      exact ⟨tag, raw, fragment, shape, Option.some.inj opens⟩
    · cases opens

theorem exists_of_closes? {t : Token} {name : Text} (closes : t.closes? = some name) :
    ∃ tag, t.fragment = .tag tag ∧ tag.shape = .closing ∧ tag.name = name := by
  unfold closes? at closes
  split at closes
  · cases closes
  · rename_i tag fragment
    split at closes
    · rename_i shape
      exact ⟨tag, fragment, shape, Option.some.inj closes⟩
    · cases closes

end Token

/-- A sequence of tokens in which opening and closing tags are paired, with equal names, and pairs do not cross. -/
inductive Balanced : List Token → Prop where
  | nil : Balanced []
  | plain {t : Token} {ts : List Token} (opens : t.opens? = none) (closes : t.closes? = none)
      (rest : Balanced ts) : Balanced (t :: ts)
  | block {t t' : Token} {name : Text} {inner ts : List Token} (opens : t.opens? = some name)
      (inside : Balanced inner) (closes : t'.closes? = some name) (rest : Balanced ts) :
      Balanced (t :: (inner ++ t' :: ts))

theorem Balanced.append {ts ts' : List Token} (first : Balanced ts) (second : Balanced ts') : Balanced (ts ++ ts') := by
  induction first with
  | nil => exact second
  | plain opens closes _ ih => exact .plain opens closes ih
  | block opens inside closes _ _ ih =>
    rw [List.cons_append, List.append_assoc, List.cons_append]
    exact .block opens inside closes ih

/-- Whether tokens close the blocks of a stack of names, the innermost first, and those they open themselves. -/
def completes : List Text → List Token → Bool
  | names, [] => names.isEmpty
  | names, t :: ts =>
    match t.opens?, t.closes? with
    | some name, _ => completes (name :: names) ts
    | none, none => completes names ts
    | none, some name =>
      match names with
      | [] => false
      | innermost :: outer => innermost == name && completes outer ts

/-- Balanced tokens with a closing tag behind them for each name of a stack, the innermost first. -/
inductive Closes : List Text → List Token → Prop where
  | nil {ts : List Token} (balanced : Balanced ts) : Closes [] ts
  | cons {name : Text} {names : List Text} {t : Token} {inner ts : List Token} (balanced : Balanced inner)
      (closes : t.closes? = some name) (rest : Closes names ts) : Closes (name :: names) (inner ++ t :: ts)

theorem Closes.prepend {names : List Text} {ts front : List Token} (balanced : Balanced front)
    (closes : Closes names ts) : Closes names (front ++ ts) := by
  cases closes with
  | nil rest => exact .nil (balanced.append rest)
  | cons inner closes rest =>
    rw [← List.append_assoc]
    exact .cons (balanced.append inner) closes rest

theorem closes_of_completes (ts : List Token) : ∀ names, completes names ts = true → Closes names ts := by
  induction ts with
  | nil =>
    intro names closed
    rw [List.isEmpty_iff.1 closed]
    exact .nil .nil
  | cons t ts ih =>
    intro names closed
    rw [completes] at closed
    split at closed
    · rename_i name opens
      cases ih _ closed with
      | @cons _ _ t' inner rest inside closes around =>
        have pair : Balanced (t :: (inner ++ [t'])) := .block opens inside closes .nil
        simpa using around.prepend pair
    · rename_i opens closes
      exact (ih _ closed).prepend (.plain opens closes .nil)
    · rename_i name opens closes
      split at closed
      · cases closed
      · rename_i innermost outer
        obtain ⟨same, closed⟩ := Bool.and_eq_true_iff.1 closed
        rw [beq_iff_eq.1 same]
        exact .cons .nil closes (ih _ closed)

theorem Token.opens?_of_closes? {t : Token} {name : Text} (closes : t.closes? = some name) : t.opens? = none := by
  obtain ⟨tag, fragment, shape, -⟩ := Token.exists_of_closes? closes
  simp [opens?, fragment, shape]

theorem completes_append {ts : List Token} (balanced : Balanced ts) :
    ∀ (names : List Text) (rest : List Token), completes names (ts ++ rest) = completes names rest := by
  induction balanced with
  | nil => exact fun _ _ => rfl
  | plain opens closes _ ih =>
    intro names rest
    rw [List.cons_append, completes, opens, closes]
    exact ih names rest
  | block opens _ closes _ ih_inner ih =>
    intro names rest
    rw [List.cons_append, completes, opens, List.append_assoc]
    dsimp only
    rw [ih_inner, List.cons_append, completes, Token.opens?_of_closes? closes, closes]
    simpa using ih names rest

/-- What a reader with a stack of names accepts are the balanced sequences. -/
theorem completes_nil_iff (ts : List Token) : completes [] ts = true ↔ Balanced ts := by
  constructor
  · intro closed
    cases closes_of_completes ts [] closed with
    | nil balanced => exact balanced
  · intro balanced
    rw [← List.append_nil ts, completes_append balanced]
    rfl

instance (ts : List Token) : Decidable (Balanced ts) := decidable_of_iff _ (completes_nil_iff ts)

/-! ## Blocks that wait for their closing tag -/

def NodeKind.isOpen (k : NodeKind) : Bool := k.state? == some .opened

namespace Tree

/-- Whether a node is a block that waits for its closing tag. -/
def isOpen (t : Tree) (id : NodeId) : Bool := (t.kind? id).any (·.isOpen)

variable {t : Tree}

theorem isOpen_of_size_le {i : NodeId} (le : t.size ≤ i) : t.isOpen i = false := by
  rw [isOpen, kind?_of_size_le le]
  rfl

theorem isOpen_addRoot (t : Tree) (i : NodeId) : t.addRoot.isOpen i = t.isOpen i := by
  rw [isOpen, kind?_addRoot]
  split
  · rename_i new
    rw [isOpen_of_size_le (Nat.le_of_eq new.symm)]
    rfl
  · rfl

theorem isOpen_append {parent : NodeId} (inside : parent < t.size) (kind : NodeKind) (offset : Nat) (i : NodeId) :
    (t.append parent kind offset).isOpen i = if i = t.size then kind.isOpen else t.isOpen i := by
  rw [isOpen, kind?_append inside]
  split <;> rfl

theorem isOpen_setState (t : Tree) (id : NodeId) {s : BlockState} (settled : s ≠ .opened) (i : NodeId) :
    (t.setState id s).isOpen i = if id = i then false else t.isOpen i := by
  rw [isOpen, kind?_setState]
  split
  · cases t.kind? i with
    | none => rfl
    | some k => cases k <;> first | rfl | exact beq_eq_false_iff_ne.2 fun eq => settled (Option.some.inj eq)
  · rfl

theorem isOpen_clearChildren (t : Tree) (id i : NodeId) : (t.clearChildren id).isOpen i = t.isOpen i := by
  rw [isOpen, kind?_clearChildren, isOpen]

/-- The nodes above a node come from the inside out. -/
theorem pairwise_ancestors (t : Tree) (i : Nat) : (i :: t.ancestors i).Pairwise (· > ·) := by
  refine List.pairwise_cons.2 ⟨fun p mem => lt_of_mem_ancestors mem, ?_⟩
  rw [ancestors.eq_def]
  split
  · rename_i p _
    split
    · exact pairwise_ancestors t p
    · exact .nil
  · exact .nil
termination_by i

end Tree

namespace Builder

/-- Whether a block of this file waits for a closing tag of a name. -/
def hasOpen (b : Builder) (name : Text) : Bool :=
  (List.range b.tree.size).any fun id => decide (b.root ≤ id) && b.tree.isOpen id && b.closedBy name id

/-- The name and the place of a closing tag for which no open block waits. -/
def stray? (b : Builder) (t : Token) : Option (Text × Nat) :=
  t.closes?.bind fun name => if b.hasOpen name then none else some (name, t.start)

/-- The closing tags among tokens for which no block waits that is open at that point. -/
def strays (b : Builder) (tokens : List Token) : List (Text × Nat) := b.trace (fun b t => (b.stray? t).toList) tokens

theorem hasOpen_iff (b : Builder) (name : Text) :
    b.hasOpen name = true ↔ ∃ i, b.root ≤ i ∧ b.tree.isOpen i = true ∧ b.tree.tag? i = some name := by
  simp only [hasOpen, List.any_eq_true, List.mem_range, Bool.and_eq_true, decide_eq_true_eq, closedBy, beq_iff_eq,
    and_assoc]
  refine exists_congr fun i => and_iff_right_of_imp fun found => Nat.lt_of_not_le fun le => ?_
  have isOpen := found.2.1
  rw [Tree.isOpen_of_size_le le] at isOpen
  cases isOpen

end Builder

/-- The closing tags that are reported to close nothing, each with its name and where it stands. -/
def Diagnostic.unexpectedPlaces (ds : List Diagnostic) : List (Text × Nat) :=
  (ds.filter (·.fault == .unexpectedClosingTag)).map fun d => (d.tag, d.offset)

theorem Diagnostic.unexpectedPlaces_append (ds ds' : List Diagnostic) :
    unexpectedPlaces (ds ++ ds') = unexpectedPlaces ds ++ unexpectedPlaces ds' := by
  rw [unexpectedPlaces, List.filter_append, List.map_append]
  rfl

theorem Diagnostic.unexpectedPlaces_of_missing {ds : List Diagnostic} (missing : ∀ d ∈ ds, d.fault = .missingClosingTag) :
    unexpectedPlaces ds = [] := by
  rw [unexpectedPlaces, List.filter_eq_nil_iff.2, List.map_nil]
  intro d mem
  rw [missing d mem]
  decide

/-! ## What is reported while tokens are read -/

namespace Builder

open Diagnostic

/-- The diagnostics grew by that many missing closing tags. -/
def Misses (n : Nat) (b b' : Builder) : Prop :=
  ∃ ds : List Diagnostic, b'.diagnostics = b.diagnostics ++ ds ∧ ds.length = n ∧ ∀ d ∈ ds, d.fault = .missingClosingTag

theorem misses_reportMissing (b : Builder) (id : NodeId) : Misses 1 b (b.reportMissing id) :=
  ⟨[_], rfl, rfl, List.forall_mem_singleton.2 rfl⟩

theorem misses_foldl {step : Builder → NodeId → Builder} (each : ∀ b id, Misses 1 b (step b id)) (ids : List NodeId) :
    ∀ b, Misses ids.length b (ids.foldl step b) := by
  induction ids with
  | nil => exact fun b => ⟨[], (List.append_nil _).symm, rfl, nofun⟩
  | cons id ids ih =>
    intro b
    obtain ⟨first, eq, length, missing⟩ := each b id
    obtain ⟨rest, eq', length', missing'⟩ := ih (step b id)
    refine ⟨first ++ rest, ?_, ?_, List.forall_mem_append.2 ⟨missing, missing'⟩⟩
    · rw [List.foldl_cons, eq', eq, List.append_assoc]
    · rw [List.length_append, length, length', List.length_cons, Nat.add_comm]

theorem misses_foldl_abandon (ids : List NodeId) (b : Builder) : Misses ids.length b (ids.foldl abandon b) :=
  misses_foldl (fun b id => misses_reportMissing { b with tree := b.tree.setState id .abandoned } id) ids b

theorem isOpen_foldl_abandon (ids : List NodeId) :
    ∀ (b : Builder) (i : NodeId), (ids.foldl abandon b).tree.isOpen i = (!ids.contains i && b.tree.isOpen i) := by
  induction ids with
  | nil => exact fun b i => rfl
  | cons id ids ih =>
    intro b i
    have here : (b.abandon id).tree.isOpen i = if id = i then false else b.tree.isOpen i :=
      b.tree.isOpen_setState id (by decide) i
    rw [List.foldl_cons, ih, here, List.contains_cons]
    by_cases same : id = i
    · simp [same]
    · rw [if_neg same, beq_eq_false_iff_ne.2 (Ne.symm same), Bool.false_or]

theorem isOpen_close (b : Builder) (id i : NodeId) :
    (b.close id).tree.isOpen i = if id = i then false else b.tree.isOpen i := by
  rw [← b.tree.isOpen_setState id (s := .closed) (by decide)]
  unfold close
  dsimp only
  split
  · exact Tree.isOpen_clearChildren ..
  · rfl

/-- The blocks that wait for a closing tag are those of the open path, whose names are these. -/
structure Nests (b : Builder) (names : List Text) : Prop where
  sound : b.Sound
  waiting : ∀ i, b.root ≤ i → (b.tree.isOpen i = true ↔ i ∈ b.openBlocks)
  named : b.openBlocks.map b.tree.tag? = names.map some

variable {b : Builder} {names : List Text}

theorem mem_openPath_of_mem_openBlocks {i : NodeId} (mem : i ∈ b.openBlocks) : i ∈ b.openPath :=
  (List.takeWhile_sublist _).subset mem

/-- The open blocks came after the root of their file. -/
theorem root_lt_of_mem_openBlocks (sound : b.Sound) {i : Nat} (mem : i ∈ b.openBlocks) : b.root < i := by
  have inside := mem_openPath_of_mem_openBlocks mem
  have ne : i ≠ b.root := bne_iff_ne.1 (List.mem_takeWhile_imp (p := (· != b.root)) mem)
  refine Nat.lt_of_le_of_ne (Nat.le_of_not_lt fun lt => ?_) (Ne.symm ne)
  have above := sound.gathered.around i inside b.root lt (sound.gathered.inside b.root sound.root_mem)
  rw [Tree.ancestors_of_none sound.root_parent] at above
  cases above

theorem Nests.hasOpen_iff (nests : b.Nests names) (name : Text) : b.hasOpen name = true ↔ name ∈ names := by
  have listed : name ∈ names ↔ ∃ i ∈ b.openBlocks, b.tree.tag? i = some name := by
    rw [← List.mem_map, nests.named, List.mem_map_of_injective (Option.some_injective _)]
  rw [Builder.hasOpen_iff, listed]
  constructor
  · rintro ⟨i, le, isOpen, tag⟩
    exact ⟨i, (nests.waiting i le).1 isOpen, tag⟩
  · rintro ⟨i, mem, tag⟩
    have le := Nat.le_of_lt (root_lt_of_mem_openBlocks nests.sound mem)
    exact ⟨i, le, (nests.waiting i le).2 mem, tag⟩

theorem nests_start (source : Text) : (start source {} {}).Nests [] where
  sound := sound_start source Chain.gathered_empty
  waiting i _ := by
    have none : (start source {} {}).openBlocks = [] := List.takeWhile_cons_of_neg (by simp [start])
    have closed : (start source {} {}).tree.isOpen i = false :=
      (Tree.isOpen_addRoot {} i).trans (Tree.isOpen_of_size_le (Nat.zero_le i))
    rw [none, closed]
    simp
  named := by
    have none : (start source {} {}).openBlocks = [] := List.takeWhile_cons_of_neg (by simp [start])
    rw [none]
    rfl

theorem tag?_append_of_lt {t : Tree} {parent : NodeId} (inside : parent < t.size) (kind : NodeKind) (offset : Nat)
    {i : Nat} (lt : i < t.size) : (t.append parent kind offset).tag? i = t.tag? i := by
  rw [Tree.tag?, Tree.kind?_append inside, if_neg (Nat.ne_of_lt lt), Tree.tag?]

/-- A further node leaves the names of the open blocks as they were. -/
theorem named_add (nests : b.Nests names) (kind : NodeKind) (offset : Nat) :
    b.openBlocks.map (b.add kind offset).tree.tag? = names.map some := by
  rw [← nests.named]
  refine List.map_congr_left fun i mem => tag?_append_of_lt (inside_current nests.sound) kind offset ?_
  exact nests.sound.gathered.inside i (mem_openPath_of_mem_openBlocks mem)

theorem nests_add (nests : b.Nests names) {kind : NodeKind} (settled : kind.state? = none) (offset : Nat) :
    (b.add kind offset).Nests names := by
  have shut : kind.isOpen = false := by rw [NodeKind.isOpen, settled]; rfl
  refine ⟨sound_add nests.sound (NodeKind.closedName?_of_settled settled) offset, fun i le => ?_, ?_⟩
  · rw [openBlocks_add nests.sound, ← nests.waiting i le]
    show (b.tree.append b.current kind offset).isOpen i = true ↔ _
    rw [Tree.isOpen_append (inside_current nests.sound), shut]
    split
    · rename_i new
      rw [Tree.isOpen_of_size_le (Nat.le_of_eq new.symm)]
    · rfl
  · rw [openBlocks_add nests.sound]
    exact named_add nests kind offset

theorem blockKind_opens (tag : Tag) : (blockKind tag).isOpen = true ∧ (blockKind tag).tag? = some tag.name := by
  unfold blockKind
  split
  · rename_i same
    exact ⟨rfl, congrArg some same.symm⟩
  · exact ⟨rfl, rfl⟩

theorem nests_openBlock (nests : b.Nests names) (tag : Tag) (offset : Nat) :
    (b.openBlock tag false offset).Nests (tag.name :: names) := by
  have inside := inside_current nests.sound
  obtain ⟨isOpen, tagged⟩ := blockKind_opens tag
  refine ⟨sound_openBlock nests.sound .., fun i le => ?_, ?_⟩
  · rw [openBlocks_openBlock nests.sound, List.mem_cons, ← nests.waiting i le]
    show (b.tree.append b.current (blockKind tag) offset).isOpen i = true ↔ _
    rw [Tree.isOpen_append inside, isOpen]
    split
    · rename_i new
      exact iff_of_true rfl (.inl new)
    · rename_i old
      exact (or_iff_right old).symm
  · rw [openBlocks_openBlock nests.sound, List.map_cons, List.map_cons]
    refine congr (congrArg List.cons ?_) (named_add nests (blockKind tag) offset)
    show (b.tree.append b.current (blockKind tag) offset).tag? b.tree.size = _
    rw [Tree.tag?, Tree.kind?_append inside, if_pos rfl, Option.bind_some, tagged]

theorem nests_selfClosing (nests : b.Nests names) (tag : Tag) (offset : Nat) :
    (b.openBlock tag true offset).Nests names := by
  have frame := frame_close (b.add (blockKind tag) offset) b.tree.size
  refine ⟨sound_openBlock nests.sound .., fun i le => ?_, ?_⟩
  · rw [openBlocks_selfClosing nests.sound, ← nests.waiting i (frame.root ▸ le)]
    show ((b.add (blockKind tag) offset).close b.tree.size).tree.isOpen i = true ↔ _
    rw [isOpen_close]
    split
    · rename_i new
      rw [Tree.isOpen_of_size_le (Nat.le_of_eq new)]
    · rename_i old
      show (b.tree.append b.current (blockKind tag) offset).isOpen i = true ↔ _
      rw [Tree.isOpen_append (inside_current nests.sound), if_neg (Ne.symm old)]
  · rw [openBlocks_selfClosing nests.sound, ← named_add nests (blockKind tag) offset]
    exact List.map_congr_left fun i _ => frame.tag i

/-- **A closing tag** is reported when no open block carries its name; otherwise it closes the innermost one that
does, and each block inside of that is reported. -/
theorem nests_closeBlock (nests : b.Nests names) (name : Text) (offset : Nat) :
    (name ∉ names ∧ (b.closeBlock name offset).Nests names ∧
      ∃ d : Diagnostic, (b.closeBlock name offset).diagnostics = b.diagnostics ++ [d] ∧
        d.fault = .unexpectedClosingTag ∧ d.tag = name ∧ d.offset = offset) ∨
    ∃ inner outer, names = inner ++ name :: outer ∧ name ∉ inner ∧ (b.closeBlock name offset).Nests outer ∧
      Misses inner.length b (b.closeBlock name offset) := by
  have sound := sound_closeBlock nests.sound name offset
  rcases closeBlock_finds nests.sound name offset with ⟨eq, without⟩ | ⟨inner, matched, outer, path, -, ne, -, eq, tag, others⟩
  · refine .inl ⟨fun mem => ?_, ⟨sound, ?_, ?_⟩, ?_⟩
    · rw [← List.mem_map_of_injective (Option.some_injective _), ← nests.named, List.mem_map] at mem
      obtain ⟨i, i_mem, tagged⟩ := mem
      exact without i (mem_openPath_of_mem_openBlocks i_mem) tagged
    · rw [eq]
      exact nests.waiting
    · rw [eq]
      exact nests.named
    · rw [eq]
      exact ⟨_, rfl, rfl, rfl, rfl⟩
  · have blocks := openBlocks_of_split nests.sound path ne
    have left := openBlocks_closeBlock nests.sound path eq
    generalize (outer :: b.tree.ancestors outer).takeWhile (· != b.root) = around at blocks left
    obtain ⟨-, frame₁⟩ := gathered_foldl_abandon inner b nests.sound.gathered fun i mem => path ▸ List.mem_append_left _ mem
    have frame := frame₁.trans (frame_close _ matched)
    have distinct : (inner ++ matched :: around).Nodup := by
      rw [← blocks]
      exact ((b.tree.pairwise_ancestors b.current).imp Nat.ne_of_gt).sublist (List.takeWhile_sublist _)
    have named := nests.named
    rw [blocks, List.map_append, List.map_cons, tag] at named
    obtain ⟨innerNames, rest, rfl, inner_eq, rest_eq⟩ := List.append_eq_map_iff.1 named
    obtain ⟨name', outerNames, rfl, name_eq, outer_eq⟩ := List.map_eq_cons_iff.1 rest_eq
    cases Option.some.inj name_eq
    refine .inr ⟨innerNames, outerNames, rfl, fun mem => ?_, ⟨sound, fun i le => ?_, ?_⟩, ?_⟩
    · rw [← List.mem_map_of_injective (Option.some_injective _), inner_eq, List.mem_map] at mem
      obtain ⟨i, i_mem, tagged⟩ := mem
      exact others i i_mem tagged
    · rw [left, eq]
      show ((inner.foldl abandon b).close matched).tree.isOpen i = true ↔ _
      have root : b.root ≤ i := by
        rw [eq] at le
        exact frame.root ▸ le
      have was := nests.waiting i root
      rw [blocks] at was
      rw [isOpen_close, isOpen_foldl_abandon]
      have shut : i ∈ around ↔ i ∈ inner ++ matched :: around ∧ matched ≠ i ∧ i ∉ inner := by
        obtain ⟨-, later, apart⟩ := List.nodup_append.1 distinct
        have outside := (List.nodup_cons.1 later).1
        simp only [List.mem_append, List.mem_cons]
        constructor
        · intro mem
          exact ⟨.inr (.inr mem), fun same => outside (same ▸ mem), fun inside => apart i inside i (.tail _ mem) rfl⟩
        · rintro ⟨inside | same | mem, ne, not_inside⟩
          · exact absurd inside not_inside
          · exact absurd same.symm ne
          · exact mem
      rw [shut, ← was]
      by_cases same : matched = i
      · simp [same]
      · simp [same, and_comm]
    · rw [left, eq, outer_eq]
      exact List.map_congr_left fun i _ => frame.tag i
    · obtain ⟨ds, grew, length, missing⟩ := misses_foldl_abandon inner b
      have same : innerNames.length = inner.length := by simpa using congrArg List.length inner_eq
      refine ⟨ds, ?_, length.trans same.symm, missing⟩
      rw [eq]
      exact (diagnostics_close ..).trans grew

/-! ## What a token does -/

theorem push_of_opens? {t : Token} {name : Text} (opens : t.opens? = some name) :
    ∃ tag : Tag, tag.name = name ∧ b.push t = b.openBlock tag false t.start := by
  obtain ⟨tag, raw, fragment, shape, same⟩ := Token.exists_of_opens? opens
  exact ⟨tag, same, push_of_opening fragment shape⟩

theorem push_of_closes? {t : Token} {name : Text} (closes : t.closes? = some name) :
    b.push t = b.closeBlock name t.start := by
  obtain ⟨tag, fragment, shape, same⟩ := Token.exists_of_closes? closes
  rw [push_of_closing fragment shape, same]

/-- A token that neither opens nor closes a block changes nothing about the open ones, and is no fault. -/
theorem nests_push_plain (nests : b.Nests names) {t : Token} (opens : t.opens? = none) (closes : t.closes? = none) :
    (b.push t).Nests names ∧ (b.push t).diagnostics = b.diagnostics := by
  have pushed := pushed_push b t
  generalize b.push t = b' at pushed ⊢
  cases pushed with
  | leaf settled _ _ => exact ⟨nests_add nests settled t.start, rfl⟩
  | extending _ => exact ⟨⟨nests.sound.of_eq rfl rfl rfl rfl, nests.waiting, nests.named⟩, rfl⟩
  | @opening tag _ selfClosing fragment shape =>
    simp only [Token.opens?, fragment, shape] at opens
    cases selfClosing with
    | true => exact ⟨nests_selfClosing nests tag t.start, diagnostics_openBlock ..⟩
    | false => cases opens
  | closing fragment shape =>
    simp only [Token.closes?, fragment, shape] at closes
    cases closes

/-- **What a token does to the open blocks and the reports**, told by the names it opens and closes. -/
inductive Step (b : Builder) : List Text → Token → List Text → Prop where
  | plain {names : List Text} {t : Token} (opens : t.opens? = none) (closes : t.closes? = none)
      (same : (b.push t).diagnostics = b.diagnostics) : Step b names t names
  | opened {names : List Text} {t : Token} {name : Text} (opens : t.opens? = some name)
      (same : (b.push t).diagnostics = b.diagnostics) : Step b names t (name :: names)
  | stray {names : List Text} {t : Token} {name : Text} (closes : t.closes? = some name) (without : name ∉ names)
      {d : Diagnostic} (reported : (b.push t).diagnostics = b.diagnostics ++ [d]) (fault : d.fault = .unexpectedClosingTag)
      (place : (d.tag, d.offset) = (name, t.start)) : Step b names t names
  | closed {inner outer : List Text} {t : Token} {name : Text} (closes : t.closes? = some name) (first : name ∉ inner)
      (misses : Misses inner.length b (b.push t)) : Step b (inner ++ name :: outer) t outer

theorem nests_push (nests : b.Nests names) (t : Token) : ∃ names', b.Step names t names' ∧ (b.push t).Nests names' := by
  cases closes : t.closes? with
  | some name =>
    have pushed := push_of_closes? (b := b) closes
    rcases nests_closeBlock nests name t.start with ⟨without, left, d, reported, fault, tag, offset⟩ |
      ⟨inner, outer, rfl, first, left, misses⟩
    · exact ⟨names, .stray closes without (pushed ▸ reported) fault (Prod.ext tag offset), pushed ▸ left⟩
    · exact ⟨outer, .closed closes first (pushed ▸ misses), pushed ▸ left⟩
  | none =>
    cases opens : t.opens? with
    | some name =>
      obtain ⟨tag, rfl, pushed⟩ := push_of_opens? (b := b) opens
      refine ⟨tag.name :: names, .opened opens ?_, pushed ▸ nests_openBlock nests tag t.start⟩
      rw [pushed]
      exact diagnostics_openBlock ..
    | none =>
      obtain ⟨left, same⟩ := nests_push_plain nests opens closes
      exact ⟨names, .plain opens closes same, left⟩

/-- The closing tags reported at a token are those for which no open block waits. -/
theorem Step.unexpectedPlaces {t : Token} {names' : List Text} (step : b.Step names t names') (nests : b.Nests names) :
    unexpectedPlaces (b.push t).diagnostics = unexpectedPlaces b.diagnostics ++ (b.stray? t).toList := by
  cases step with
  | plain _ closes same => simp [stray?, closes, same]
  | opened opens same =>
    have closes : t.closes? = none := by
      refine Option.eq_none_iff_forall_ne_some.2 fun name closes => ?_
      rw [Token.opens?_of_closes? closes] at opens
      cases opens
    simp [stray?, closes, same]
  | @stray _ _ name closes without d reported fault place =>
    have none : b.hasOpen name = false := Bool.eq_false_iff.2 fun found => without ((nests.hasOpen_iff name).1 found)
    rw [reported, unexpectedPlaces_append, stray?, closes, Option.bind_some, none]
    simp [Diagnostic.unexpectedPlaces, fault, place]
  | @closed inner outer _ name closes _ misses =>
    obtain ⟨ds, grew, -, missing⟩ := misses
    have found : b.hasOpen name = true := (nests.hasOpen_iff name).2 (List.mem_append_right _ (List.mem_cons_self ..))
    rw [grew, unexpectedPlaces_append, unexpectedPlaces_of_missing missing, stray?, closes, Option.bind_some, found]
    rfl

/-! ## All tokens -/

theorem unexpectedPlaces_foldl_push (tokens : List Token) : ∀ (b : Builder) (names : List Text), b.Nests names →
    unexpectedPlaces (tokens.foldl push b).diagnostics = unexpectedPlaces b.diagnostics ++ b.strays tokens := by
  induction tokens with
  | nil => exact fun b _ _ => (List.append_nil _).symm
  | cons t tokens ih =>
    intro b names nests
    obtain ⟨names', step, left⟩ := nests_push nests t
    rw [List.foldl_cons, ih _ names' left, step.unexpectedPlaces nests, List.append_assoc, strays, strays, trace]

theorem misses_finish (b : Builder) : Misses b.openBlocks.length b b.finish :=
  misses_foldl misses_reportMissing b.openBlocks b

theorem diagnostics_prefix_foldl_push (tokens : List Token) : ∀ (b : Builder) (names : List Text), b.Nests names →
    b.diagnostics <+: (tokens.foldl push b).diagnostics := by
  induction tokens with
  | nil => exact fun b _ _ => List.prefix_rfl
  | cons t tokens ih =>
    intro b names nests
    obtain ⟨names', step, left⟩ := nests_push nests t
    refine List.IsPrefix.trans ?_ (ih _ names' left)
    cases step with
    | plain _ _ same => exact same ▸ List.prefix_rfl
    | opened _ same => exact same ▸ List.prefix_rfl
    | stray _ _ reported => exact ⟨_, reported.symm⟩
    | closed _ _ misses =>
      obtain ⟨ds, grew, -⟩ := misses
      exact ⟨ds, grew.symm⟩

/-- Nothing is reported exactly when the tokens close what is open and what they open, in order. -/
theorem diagnostics_eq_nil_iff (tokens : List Token) : ∀ (b : Builder) (names : List Text), b.Nests names →
    b.diagnostics = [] → ((tokens.foldl push b).finish.diagnostics = [] ↔ completes names tokens = true) := by
  induction tokens with
  | nil =>
    intro b names nests clean
    obtain ⟨ds, grew, length, -⟩ := misses_finish b
    have open_length : b.openBlocks.length = names.length := by simpa using congrArg List.length nests.named
    rw [List.foldl_nil, grew, clean, List.nil_append, ← List.length_eq_zero_iff, length, open_length, completes]
    simp
  | cons t tokens ih =>
    intro b names nests clean
    obtain ⟨names', step, left⟩ := nests_push nests t
    -- A report stays a report, whatever comes behind it.
    have kept : (b.push t).diagnostics ≠ [] → (tokens.foldl push (b.push t)).finish.diagnostics ≠ [] := by
      intro reported none
      obtain ⟨ds, grew, -⟩ := misses_finish (tokens.foldl push (b.push t))
      rw [grew] at none
      have before := diagnostics_prefix_foldl_push tokens _ names' left
      rw [(List.append_eq_nil_iff.1 none).1] at before
      exact reported (List.prefix_nil.1 before)
    rw [List.foldl_cons, completes]
    cases step with
    | plain opens closes same =>
      rw [opens, closes]
      exact ih _ names left (same.trans clean)
    | opened opens same =>
      rw [opens]
      exact ih _ _ left (same.trans clean)
    | stray closes without reported =>
      rw [Token.opens?_of_closes? closes, closes]
      refine iff_of_false (kept ?_) ?_
      · rw [reported]
        simp
      · cases names with
        | nil => exact Bool.false_ne_true
        | cons innermost outer =>
          have ne : innermost ≠ _ := fun same => without (same ▸ List.mem_cons_self ..)
          simp [ne]
    | @closed inner outer _ name closes first misses =>
      rw [Token.opens?_of_closes? closes, closes]
      obtain ⟨ds, grew, length, -⟩ := misses
      cases inner with
      | nil =>
        rw [List.length_eq_zero_iff.1 length, List.append_nil] at grew
        simpa using ih _ _ left (grew.trans clean)
      | cons innermost inner =>
        refine iff_of_false (kept ?_) ?_
        · rw [grew]
          intro none
          rw [(List.append_eq_nil_iff.1 none).2] at length
          cases length
        · have ne : innermost ≠ name := fun same => first (same ▸ List.mem_cons_self ..)
          simp [ne]

theorem unexpectedPlaces_finish (b : Builder) : unexpectedPlaces b.finish.diagnostics = unexpectedPlaces b.diagnostics := by
  obtain ⟨ds, grew, -, missing⟩ := misses_finish b
  rw [grew, unexpectedPlaces_append, unexpectedPlaces_of_missing missing, List.append_nil]

/-! ## Behind other files -/

variable {t : Tree} {alone : Builder}

theorem Behind.hasOpen (behind : Behind t alone b) (name : Text) : b.hasOpen name = alone.hasOpen name := by
  have isOpen : ∀ i, b.tree.isOpen (i + t.size) = alone.tree.isOpen i := fun i => by
    rw [Tree.isOpen, behind.tree, Tree.kind?_graft, Tree.isOpen]
  rw [Bool.eq_iff_iff, hasOpen_iff, hasOpen_iff]
  constructor
  · rintro ⟨i, le, waits, tag⟩
    rw [behind.root] at le
    obtain ⟨j, rfl⟩ := Nat.exists_eq_add_of_le' (Nat.le_trans (Nat.le_add_left ..) le)
    exact ⟨j, Nat.le_of_add_le_add_right le, (isOpen j).symm.trans waits, (behind.tag? j).symm.trans tag⟩
  · rintro ⟨j, le, waits, tag⟩
    refine ⟨j + t.size, ?_, (isOpen j).trans waits, (behind.tag? j).trans tag⟩
    rw [behind.root]
    exact Nat.add_le_add_right le _

theorem Behind.strays (tokens : List Token) :
    ∀ {alone b : Builder}, Behind t alone b → b.strays tokens = alone.strays tokens := by
  induction tokens with
  | nil => exact fun _ => rfl
  | cons token tokens ih =>
    intro alone b behind
    have same : b.stray? token = alone.stray? token := by
      simp only [stray?, behind.hasOpen]
    rw [Builder.strays, Builder.trace, same]
    exact congrArg ((alone.stray? token).toList ++ ·) (ih (behind.push token))

end Builder

namespace Tree

theorem place_graft (t new : Tree) (i : NodeId) : (t.graft new).place (i + t.size) = new.place i := by
  rw [place, tag?_graft, node?_graft, Option.map_map, place]
  rfl

theorem isUnclosed_graft (t new : Tree) (i : NodeId) : (t.graft new).isUnclosed (i + t.size) = new.isUnclosed i := by
  rw [isUnclosed, kind?_graft, isUnclosed]

/-- The unclosed blocks that came behind an arena are those of the arena of their own. -/
theorem unclosed_graft (t new : Tree) :
    ((t.graft new).unclosed.filter (t.size ≤ ·)) = new.unclosed.map (· + t.size) := by
  have front : ((List.range t.size).filter (t.graft new).isUnclosed).filter (t.size ≤ ·) = [] := by
    refine List.filter_eq_nil_iff.2 fun i mem => ?_
    have lt := List.mem_range.1 (List.mem_filter.1 mem).1
    simpa using lt
  have back : ∀ i, i ∈ new.unclosed.map (· + t.size) → decide (t.size ≤ i) = true := by
    intro i mem
    obtain ⟨j, -, rfl⟩ := List.mem_map.1 mem
    exact decide_eq_true (Nat.le_add_left ..)
  have moved : ((List.range new.size).map (t.size + ·)).filter (t.graft new).isUnclosed
      = new.unclosed.map (· + t.size) := by
    rw [List.filter_map, unclosed]
    simp only [Function.comp_def, Nat.add_comm t.size, isUnclosed_graft]
  rw [unclosed, size_graft, Nat.add_comm, List.range_add, List.filter_append, List.filter_append, front,
    moved, List.filter_eq_self.2 back, List.nil_append]

open Diagnostic

/-- **The diagnostics of a file account for what went wrong in it.**  One missing closing tag is reported for each
block of this file that was not closed, with its tag and place; the unexpected closing tags are those for which no
block of the file was open when they were read, in order; and nothing is reported exactly when the tags nest. -/
theorem diagnostics_build (tokens : List Token) (source : Text) (tree : Tree) (blocks : BlockStack) :
    (missingPlaces (build tokens source tree blocks).diagnostics).Perm
      (((build tokens source tree blocks).tree.unclosed.filter (tree.size ≤ ·)).map
        (build tokens source tree blocks).tree.place) ∧
    unexpectedPlaces (build tokens source tree blocks).diagnostics
      = (Builder.start source tree blocks).strays tokens ∧
    ((build tokens source tree blocks).diagnostics = [] ↔ Balanced tokens) := by
  have behind := behind_build tokens source tree blocks
  have nests := Builder.nests_start source
  rw [behind.diagnostics, behind.tree]
  refine ⟨?_, ?_, ?_⟩
  · obtain ⟨given, places, perm⟩ := reportedAt_build tokens source Chain.gathered_empty ⟨[], rfl, .refl _⟩
    rw [List.map_nil, List.nil_append] at places
    rw [unclosed_graft, List.map_map, places]
    have same : (tree.graft (build tokens source {} {}).tree).place ∘ (· + tree.size)
        = (build tokens source {} {}).tree.place := funext fun i => place_graft ..
    rw [same]
    exact perm.map _
  · rw [(Builder.behind_start source tree blocks).strays]
    exact (Builder.unexpectedPlaces_finish _).trans (Builder.unexpectedPlaces_foldl_push tokens _ [] nests)
  · rw [← completes_nil_iff]
    exact Builder.diagnostics_eq_nil_iff tokens _ [] nests rfl

end Tree

end TagTemplate
