/-
# Proofs.Tree.Unclosed -- what is reported of blocks that are never closed

A block that never gets its own closing tag is reported once, with its tag and the
place where it starts.  While tokens are read, the blocks that are not closed are
those already reported and those still open (`Builder.Reports`); at the end the
latter are reported as well.  So the reports of a chain are exactly the blocks of
its arena that were never closed (`missingPlaces_of_ofSource`).

A block definition inside of such a block can be closed itself.  Its nodes leave it
for the block stack there and then, and stay on it: every node of a body on the stack
was held by a closed definition (`Tree.Owned`), whatever lies around that.
-/
import Mathlib.Data.List.Nodup
import Mathlib.Data.List.Perm.Basic
import TagTemplate.Proofs.Chain

namespace TagTemplate

set_option autoImplicit false

/-! ## Blocks that are never closed -/

def NodeKind.isUnclosed (k : NodeKind) : Bool := k.state?.any (· != .closed)

namespace Tree

/-- Whether a node is a block without a closing tag of its own. -/
def isUnclosed (t : Tree) (id : NodeId) : Bool := (t.kind? id).any (·.isUnclosed)

/-- The blocks without a closing tag of their own, in the order they were added. -/
def unclosed (t : Tree) : List NodeId := (List.range t.size).filter t.isUnclosed

/-- What a report says of a node: the tag that would close it, and where it starts. -/
def place (t : Tree) (id : NodeId) : Text × Nat := ((t.tag? id).getD [], ((t.node? id).map (·.offset)).getD 0)

end Tree

/-- The blocks that are reported as never closed, each with its tag and where it starts. -/
def Diagnostic.missingPlaces (ds : List Diagnostic) : List (Text × Nat) :=
  (ds.filter (·.fault == .missingClosingTag)).map fun d => (d.tag, d.offset)

namespace Tree

variable {t : Tree}

theorem isUnclosed_of_size_le {i : NodeId} (le : t.size ≤ i) : t.isUnclosed i = false := by
  rw [isUnclosed, kind?_of_size_le le]
  rfl

theorem mem_unclosed_iff (t : Tree) (i : Nat) : i ∈ t.unclosed ↔ t.isUnclosed i = true := by
  rw [unclosed, List.mem_filter, List.mem_range]
  refine ⟨fun h => h.2, fun h => ⟨Nat.lt_of_not_le fun le => ?_, h⟩⟩
  rw [isUnclosed_of_size_le le] at h
  cases h

theorem lt_size_of_mem_unclosed {i : Nat} (mem : i ∈ t.unclosed) : i < t.size :=
  List.mem_range.1 (List.mem_filter.1 mem).1

theorem nodup_unclosed (t : Tree) : t.unclosed.Nodup := List.nodup_range.filter _

theorem unclosed_congr {t' : Tree} (size : t'.size = t.size) (same : ∀ i, t'.isUnclosed i = t.isUnclosed i) :
    t'.unclosed = t.unclosed := by
  rw [unclosed, unclosed, size]
  exact List.filter_congr fun i _ => same i

theorem isUnclosed_addRoot (t : Tree) (i : NodeId) : t.addRoot.isUnclosed i = t.isUnclosed i := by
  rw [isUnclosed, kind?_addRoot]
  split
  · rename_i new
    rw [isUnclosed_of_size_le (Nat.le_of_eq new.symm)]
    rfl
  · rfl

theorem unclosed_addRoot (t : Tree) : t.addRoot.unclosed = t.unclosed := by
  have same : t.addRoot.isUnclosed = t.isUnclosed := funext (isUnclosed_addRoot t)
  rw [unclosed, size_addRoot, same, List.range_succ, List.filter_append]
  simp [unclosed, isUnclosed_of_size_le (Nat.le_refl t.size)]

theorem place_addRoot {i : Nat} (lt : i < t.size) : t.addRoot.place i = t.place i := by
  rw [place, tag?, kind?_addRoot, addRoot, node?_push, if_neg (Nat.ne_of_lt lt), if_neg (Nat.ne_of_lt lt)]
  rfl

section Append

variable {parent : NodeId} (inside : parent < t.size) (kind : NodeKind) (offset : Nat)
include inside

theorem isUnclosed_append (i : NodeId) :
    (t.append parent kind offset).isUnclosed i = if i = t.size then kind.isUnclosed else t.isUnclosed i := by
  rw [isUnclosed, kind?_append inside]
  split <;> rfl

theorem unclosed_append :
    (t.append parent kind offset).unclosed = t.unclosed ++ if kind.isUnclosed then [t.size] else [] := by
  have old : ∀ i ∈ List.range t.size, (t.append parent kind offset).isUnclosed i = t.isUnclosed i := fun i mem => by
    rw [isUnclosed_append inside, if_neg (Nat.ne_of_lt (List.mem_range.1 mem))]
  have new := isUnclosed_append inside kind offset t.size
  rw [if_pos rfl] at new
  rw [unclosed, size_append, List.range_succ, List.filter_append, List.filter_congr old, List.filter_singleton, new]
  cases kind.isUnclosed <;> rfl

theorem place_append {i : Nat} (lt : i < t.size) : (t.append parent kind offset).place i = t.place i := by
  rw [place, tag?, kind?_append inside, if_neg (Nat.ne_of_lt lt), node?_append inside, if_neg (Nat.ne_of_lt lt)]
  split
  · rw [Option.map_map]
    rfl
  · rfl

end Append

theorem place_setState (t : Tree) (id : NodeId) (s : BlockState) (i : NodeId) :
    (t.setState id s).place i = t.place i := by
  rw [place, Builder.tag?_setState, setState, node?_modify]
  split
  · rw [Option.map_map]
    rfl
  · rfl

theorem place_clearChildren (t : Tree) (id i : NodeId) : (t.clearChildren id).place i = t.place i := by
  rw [place, tag?, kind?_clearChildren, clearChildren, node?_modify]
  split
  · rw [Option.map_map]
    rfl
  · rfl

/-- A block that is given up is as unclosed as it was. -/
theorem unclosed_setState_abandoned {id : NodeId} (was : t.isUnclosed id = true) :
    (t.setState id .abandoned).unclosed = t.unclosed := by
  refine unclosed_congr (size_setState ..) fun i => ?_
  rw [isUnclosed, kind?_setState]
  split
  · rename_i same
    subst same
    rw [was]
    unfold isUnclosed at was
    cases kind : t.kind? id with
    | none =>
      rw [kind] at was
      cases was
    | some k =>
      rw [kind] at was
      cases k <;> first | rfl | cases was
  · rfl

theorem isUnclosed_closed (t : Tree) (id i : NodeId) :
    (t.setState id .closed).isUnclosed i = if id = i then false else t.isUnclosed i := by
  rw [isUnclosed, kind?_setState]
  split
  · cases t.kind? i with
    | none => rfl
    | some k => cases k <;> rfl
  · rfl

end Tree

/-- The places are those of the blocks without a closing tag of their own. -/
def Tree.ReportedAt (t : Tree) (places : List (Text × Nat)) : Prop :=
  ∃ given : List NodeId, places = given.map t.place ∧ given.Perm t.unclosed

namespace Diagnostic

theorem missingPlaces_append (ds ds' : List Diagnostic) :
    missingPlaces (ds ++ ds') = missingPlaces ds ++ missingPlaces ds' := by
  rw [missingPlaces, List.filter_append, List.map_append]
  rfl

/-- The file that a diagnostic names is no part of the place. -/
theorem missingPlaces_map_file (ds : List Diagnostic) (file : Option Location) :
    missingPlaces (ds.map fun d => { d with file }) = missingPlaces ds := by
  rw [missingPlaces, List.filter_map, List.map_map]
  rfl

end Diagnostic

/-! ## Reports while tokens are read -/

namespace Builder

open Diagnostic

def openBlocks (b : Builder) : List NodeId := b.openPath.takeWhile (· != b.root)

/-- The blocks without a closing tag of their own are those that were reported and those that are open. -/
def Reports (earlier : List (Text × Nat)) (b : Builder) : Prop :=
  ∃ given : List NodeId, earlier ++ missingPlaces b.diagnostics = given.map b.tree.place ∧
    (given ++ b.openBlocks).Perm b.tree.unclosed

variable {earlier : List (Text × Nat)} {b : Builder}

/-- Where the open path passes a block, the open blocks are those before it, itself, and those around. -/
theorem openBlocks_of_split (sound : b.Sound) {inner after : List NodeId} {id : NodeId}
    (split : b.openPath = inner ++ id :: after) (ne : id ≠ b.root) :
    b.openBlocks = inner ++ id :: after.takeWhile (· != b.root) := by
  have before : ∀ i ∈ inner, (i != b.root) = true := by
    intro i mem
    refine bne_iff_ne.2 ?_
    rintro rfl
    obtain ⟨front, back, rfl⟩ := List.append_of_mem mem
    rw [List.append_assoc, List.cons_append] at split
    have root_last := Tree.ancestors_of_split front b.current split
    rw [Tree.ancestors_of_none sound.root_parent] at root_last
    simp at root_last
  have here : (id != b.root) = true := bne_iff_ne.2 ne
  rw [openBlocks, split, List.takeWhile_append_of_pos before, List.takeWhile_cons, here]
  rfl

theorem openBlocks_add (sound : b.Sound) (kind : NodeKind) (offset : Nat) :
    (b.add kind offset).openBlocks = b.openBlocks := by
  rw [openBlocks, openPath_add sound offset]
  rfl

/-- A block that is opened is the innermost open one. -/
theorem openBlocks_openBlock (sound : b.Sound) (tag : Tag) (offset : Nat) :
    (b.openBlock tag false offset).openBlocks = b.tree.size :: b.openBlocks := by
  have path : (b.openBlock tag false offset).openPath = b.tree.size :: b.openPath := by
    show b.tree.size :: (b.tree.append b.current (blockKind tag) offset).ancestors b.tree.size = _
    rw [Tree.Gathered.ancestors_append_new offset sound.gathered.rising (inside_current sound)]
    rfl
  rw [openBlocks, path]
  exact List.takeWhile_cons_of_pos (bne_iff_ne.2 (root_ne_size sound).symm)

/-- A block that closes itself leaves the same blocks open. -/
theorem openBlocks_selfClosing (sound : b.Sound) (tag : Tag) (offset : Nat) :
    (b.openBlock tag true offset).openBlocks = b.openBlocks := by
  have frame := frame_close (b.add (blockKind tag) offset) b.tree.size
  have path : (b.openBlock tag true offset).openPath = b.openPath := by
    show ((b.add (blockKind tag) offset).close b.tree.size).openPath = _
    rw [← openPath_add sound offset, openPath, frame.current, frame.ancestors]
    rfl
  have root : (b.openBlock tag true offset).root = b.root := frame.root
  rw [openBlocks, path, root]
  rfl

/-- What is open after a block was closed are the blocks around it. -/
theorem openBlocks_closeBlock (sound : b.Sound) {name : Text} {offset : Nat} {inner : List NodeId}
    {matched outer : NodeId} (path : b.openPath = inner ++ matched :: outer :: b.tree.ancestors outer)
    (closed : b.closeBlock name offset = { (inner.foldl abandon b).close matched with current := outer }) :
    (b.closeBlock name offset).openBlocks = (outer :: b.tree.ancestors outer).takeWhile (· != b.root) := by
  obtain ⟨-, frame₁⟩ := gathered_foldl_abandon inner b sound.gathered fun id mem => path ▸ List.mem_append_left _ mem
  have frame := frame₁.trans (frame_close _ matched)
  rw [closed, ← frame.root, ← frame.ancestors]
  rfl

theorem missingPlaces_reportMissing (b : Builder) (id : NodeId) :
    missingPlaces (b.reportMissing id).diagnostics = missingPlaces b.diagnostics ++ [b.tree.place id] :=
  missingPlaces_append ..

theorem missingPlaces_foldl_reportMissing (ids : List NodeId) :
    ∀ b : Builder, missingPlaces (ids.foldl reportMissing b).diagnostics
      = missingPlaces b.diagnostics ++ ids.map b.tree.place := by
  induction ids with
  | nil =>
    intro b
    exact (List.append_nil _).symm
  | cons id ids ih =>
    intro b
    rw [List.foldl_cons, ih, missingPlaces_reportMissing, List.append_assoc]
    rfl

/-- Blocks that are given up are reported, and are as unclosed as they were. -/
theorem foldl_abandon (ids : List NodeId) :
    ∀ b : Builder, (∀ id ∈ ids, id ∈ b.tree.unclosed) →
      missingPlaces (ids.foldl abandon b).diagnostics = missingPlaces b.diagnostics ++ ids.map b.tree.place ∧
      (ids.foldl abandon b).tree.unclosed = b.tree.unclosed ∧
      (ids.foldl abandon b).tree.place = b.tree.place := by
  induction ids with
  | nil =>
    intro b _
    exact ⟨(List.append_nil _).symm, rfl, rfl⟩
  | cons id ids ih =>
    intro b mem
    have here : (b.abandon id).tree.unclosed = b.tree.unclosed :=
      Tree.unclosed_setState_abandoned ((Tree.mem_unclosed_iff ..).1 (mem id (List.mem_cons_self ..)))
    have place : (b.abandon id).tree.place = b.tree.place := funext (Tree.place_setState b.tree id .abandoned)
    have reported : missingPlaces (b.abandon id).diagnostics = missingPlaces b.diagnostics ++ [b.tree.place id] := by
      rw [← congrFun place id]
      exact missingPlaces_append ..
    obtain ⟨missing, unclosed, place'⟩ := ih (b.abandon id) fun i i_mem =>
      here ▸ mem i (List.mem_cons_of_mem _ i_mem)
    refine ⟨?_, unclosed.trans here, place'.trans place⟩
    rw [List.foldl_cons, missing, reported, place, List.append_assoc]
    rfl

theorem place_close (b : Builder) (id : NodeId) : (b.close id).tree.place = b.tree.place := by
  funext i
  unfold close
  dsimp only
  split
  · exact (Tree.place_clearChildren ..).trans (Tree.place_setState ..)
  · exact Tree.place_setState ..

theorem isUnclosed_close (b : Builder) (id i : NodeId) :
    (b.close id).tree.isUnclosed i = if id = i then false else b.tree.isUnclosed i := by
  rw [← Tree.isUnclosed_closed]
  unfold close
  dsimp only
  split
  · show (Tree.clearChildren _ id).isUnclosed i = _
    rw [Tree.isUnclosed, Tree.kind?_clearChildren, Tree.isUnclosed]
  · rfl

/-- Closing a block takes it from the unclosed ones. -/
theorem unclosed_close {id : Nat} (mem : id ∈ b.tree.unclosed) :
    b.tree.unclosed.Perm (id :: (b.close id).tree.unclosed) := by
  refine (List.perm_ext_iff_of_nodup (Tree.nodup_unclosed _) (List.nodup_cons.2 ⟨fun still => ?_,
    Tree.nodup_unclosed _⟩)).2 fun i => ?_
  · rw [Tree.mem_unclosed_iff, isUnclosed_close, if_pos rfl] at still
    cases still
  · rw [List.mem_cons, Tree.mem_unclosed_iff, Tree.mem_unclosed_iff, isUnclosed_close]
    by_cases same : id = i
    · rw [if_pos same, ← same]
      exact iff_of_true ((Tree.mem_unclosed_iff ..).1 mem) (.inl rfl)
    · rw [if_neg same]
      exact (or_iff_right (Ne.symm same)).symm

theorem reports_start {tree : Tree} (source : Text) (blocks : BlockStack)
    (reported : tree.ReportedAt earlier) : Reports earlier (start source tree blocks) := by
  obtain ⟨given, rfl, perm⟩ := reported
  refine ⟨given, ?_, ?_⟩
  · rw [show missingPlaces (start source tree blocks).diagnostics = [] from rfl, List.append_nil]
    exact List.map_congr_left fun i mem => (Tree.place_addRoot (Tree.lt_size_of_mem_unclosed (perm.subset mem))).symm
  · have none : (start source tree blocks).openBlocks = [] := List.takeWhile_cons_of_neg (by simp [start])
    rw [none, List.append_nil]
    exact (Tree.unclosed_addRoot tree) ▸ perm

theorem reports_add (sound : b.Sound) (reports : Reports earlier b) {kind : NodeKind} (settled : kind.isUnclosed = false)
    (offset : Nat) : Reports earlier (b.add kind offset) := by
  obtain ⟨given, places, perm⟩ := reports
  have inside := inside_current sound
  refine ⟨given, places.trans (List.map_congr_left fun i mem => ?_), ?_⟩
  · exact (Tree.place_append inside kind offset
      (Tree.lt_size_of_mem_unclosed (perm.subset (List.mem_append_left _ mem)))).symm
  · show (given ++ (b.add kind offset).openBlocks).Perm (b.tree.append b.current kind offset).unclosed
    rw [openBlocks_add sound, Tree.unclosed_append inside, settled]
    simpa using perm

theorem isUnclosed_blockKind (tag : Tag) : (blockKind tag).isUnclosed = true := by
  unfold blockKind
  split <;> rfl

theorem reports_openBlock (sound : b.Sound) (reports : Reports earlier b) (tag : Tag) (selfClosing : Bool)
    (offset : Nat) : Reports earlier (b.openBlock tag selfClosing offset) := by
  obtain ⟨given, places, perm⟩ := reports
  have inside := inside_current sound
  have places' : earlier ++ missingPlaces b.diagnostics = given.map (b.add (blockKind tag) offset).tree.place :=
    places.trans (List.map_congr_left fun i mem => (Tree.place_append inside _ offset
      (Tree.lt_size_of_mem_unclosed (perm.subset (List.mem_append_left _ mem)))).symm)
  have unclosed : (b.add (blockKind tag) offset).tree.unclosed = b.tree.unclosed ++ [b.tree.size] := by
    refine (Tree.unclosed_append inside ..).trans ?_
    rw [isUnclosed_blockKind]
    rfl
  cases selfClosing with
  | false =>
    refine ⟨given, places', ?_⟩
    show (given ++ (b.openBlock tag false offset).openBlocks).Perm (b.add (blockKind tag) offset).tree.unclosed
    rw [openBlocks_openBlock sound, unclosed]
    exact List.perm_middle.trans ((perm.cons _).trans (List.perm_append_singleton _ _).symm)
  | true =>
    have mem : b.tree.size ∈ (b.add (blockKind tag) offset).tree.unclosed := by
      rw [unclosed]
      exact List.mem_append_right _ (List.mem_singleton_self _)
    have closed := unclosed_close mem
    rw [unclosed] at closed
    refine ⟨given, ?_, ?_⟩
    · show earlier ++ missingPlaces ((b.add (blockKind tag) offset).close b.tree.size).diagnostics
        = given.map ((b.add (blockKind tag) offset).close b.tree.size).tree.place
      rw [diagnostics_close, place_close]
      exact places'
    · rw [openBlocks_selfClosing sound]
      exact perm.trans (((List.perm_append_singleton ..).symm.trans closed).cons_inv)

theorem reports_closeBlock (sound : b.Sound) (reports : Reports earlier b) (name : Text) (offset : Nat) :
    Reports earlier (b.closeBlock name offset) := by
  obtain ⟨given, places, perm⟩ := reports
  rcases closeBlock_cases sound name offset with eq | ⟨inner, matched, outer, path, -, ne, -, eq⟩
  · rw [eq]
    refine ⟨given, Eq.trans ?_ places, perm⟩
    show earlier ++ missingPlaces (b.diagnostics ++ [_]) = _
    rw [missingPlaces_append]
    exact congrArg _ (List.append_nil _)
  · rw [openBlocks_of_split sound path ne] at perm
    have still : ∀ id ∈ inner ++ [matched], id ∈ b.tree.unclosed := by
      intro id mem
      refine perm.subset (List.mem_append_right _ ?_)
      rw [← List.singleton_append, ← List.append_assoc]
      exact List.mem_append_left _ mem
    obtain ⟨missing, unclosed, place⟩ := foldl_abandon inner b fun id mem => still id (List.mem_append_left _ mem)
    have closed : (b.tree.unclosed).Perm (matched :: ((inner.foldl abandon b).close matched).tree.unclosed) := by
      rw [← unclosed]
      apply unclosed_close
      rw [unclosed]
      exact still matched (List.mem_append_right _ (List.mem_singleton_self _))
    refine ⟨given ++ inner, ?_, ?_⟩
    · rw [eq]
      show earlier ++ missingPlaces ((inner.foldl abandon b).close matched).diagnostics
        = (given ++ inner).map ((inner.foldl abandon b).close matched).tree.place
      rw [diagnostics_close, missing, place_close, place, ← List.append_assoc, places, List.map_append]
    · rw [openBlocks_closeBlock sound path eq, eq]
      have moved : (matched :: (given ++ inner ++ (outer :: b.tree.ancestors outer).takeWhile (· != b.root))).Perm
          (given ++ (inner ++ matched :: (outer :: b.tree.ancestors outer).takeWhile (· != b.root))) := by
        rw [← List.append_assoc]
        exact List.perm_middle.symm
      exact ((moved.trans perm).trans closed).cons_inv

/-- **Every token keeps the reports and the open blocks those of the arena.** -/
theorem reports_push (sound : b.Sound) (reports : Reports earlier b) (t : Token) : Reports earlier (b.push t) := by
  have pushed := pushed_push b t
  generalize b.push t = b' at pushed ⊢
  cases pushed with
  | leaf settled _ _ => exact reports_add sound reports (by rw [NodeKind.isUnclosed, settled]; rfl) t.start
  | extending _ => exact reports
  | opening _ _ => exact reports_openBlock sound reports ..
  | closing _ _ => exact reports_closeBlock sound reports ..

theorem reports_foldl_push (tokens : List Token) :
    ∀ b : Builder, b.Sound → Reports earlier b → Reports earlier (tokens.foldl push b) := by
  induction tokens with
  | nil => exact fun _ _ reports => reports
  | cons t tokens ih =>
    intro b sound reports
    exact ih (b.push t) (sound_push sound t) (reports_push sound reports t)

end Builder

/-! ## Reports of a chain -/

open Diagnostic

theorem reportedAt_build {tree : Tree} {blocks : BlockStack} {earlier : List (Text × Nat)} (tokens : List Token)
    (source : Text) (g : tree.Gathered blocks []) (reported : tree.ReportedAt earlier) :
    (Tree.build tokens source tree blocks).tree.ReportedAt
      (earlier ++ missingPlaces (Tree.build tokens source tree blocks).diagnostics) := by
  obtain ⟨given, places, perm⟩ := Builder.reports_foldl_push tokens _ (Builder.sound_start source g)
    (Builder.reports_start source blocks reported)
  obtain ⟨tree_eq, -, -⟩ := Builder.foldl_reportMissing
    (tokens.foldl Builder.push (Builder.start source tree blocks)).openBlocks
    (tokens.foldl Builder.push (Builder.start source tree blocks))
  refine ⟨given ++ (tokens.foldl Builder.push (Builder.start source tree blocks)).openBlocks, ?_, ?_⟩
  · rw [Tree.build, Builder.finish]
    refine (congrArg (earlier ++ ·) (Builder.missingPlaces_foldl_reportMissing ..)).trans ?_
    rw [← List.append_assoc, places, List.map_append]
    exact congrArg (fun t : Tree => given.map t.place ++ List.map t.place _) tree_eq.symm
  · exact perm.trans (.of_eq (congrArg Tree.unclosed tree_eq.symm))

namespace Chain

variable {s : Settings} {fs : FileSystem}

theorem reportedAt_buildFile {c : Chain} (origin : Option Template) (source : Text) (g : c.tree.Gathered c.blocks [])
    (reported : c.tree.ReportedAt (missingPlaces c.diagnostics)) :
    (buildFile s c origin source).2.tree.ReportedAt (missingPlaces (buildFile s c origin source).2.diagnostics) := by
  have built := reportedAt_build (Token.tokenize (Source.prepare s.options source)) (Source.prepare s.options source)
    g reported
  show Tree.ReportedAt _ (missingPlaces (c.diagnostics ++ List.map _ _))
  rw [missingPlaces_append, missingPlaces_map_file]
  exact built

theorem reportedAt_of_follows {c chain : Chain} {origin : Option Template} {source : Text} {further : List Location}
    (follows : Follows s fs c origin source further chain) (g : c.tree.Gathered c.blocks [])
    (reported : c.tree.ReportedAt (missingPlaces c.diagnostics)) :
    chain.tree.ReportedAt (missingPlaces chain.diagnostics) := by
  induction follows with
  | last _ => exact reportedAt_buildFile _ _ g reported
  | next _ _ _ _ _ ih => exact ih (Tree.gathered_build _ _ g) (reportedAt_buildFile _ _ g reported)

/-- **What a chain reports as never closed are the blocks of its arena that were never closed**, each of
them once. -/
theorem missingPlaces_of_ofSource {origin : Option Template} {source : Text} {log : List Event} {chain : Chain}
    (built : ((ofSource s fs origin source).run log).1 = .ok chain) :
    (missingPlaces chain.diagnostics).Perm (chain.tree.unclosed.map chain.tree.place) := by
  obtain ⟨_, follows⟩ := ofSource_eq_ok_iff.1 built
  obtain ⟨given, places, perm⟩ := reportedAt_of_follows follows gathered_empty ⟨[], rfl, .refl _⟩
  rw [places]
  exact perm.map _

end Chain

/-! ## Bodies and what held them -/

namespace Tree

/-- The nodes of every body on the block stack were held by a closed definition. -/
def Owned (t : Tree) (s : BlockStack) : Prop :=
  ∀ name ids, .pending ids ∈ (s.slot name).bodies → ∀ id ∈ ids, ∃ outer,
    t.parent? id = some outer ∧ (t.closedName? outer).isSome

variable {t t' : Tree} {s : BlockStack}

/-- Parents stay what they are, and closed definitions stay closed. -/
theorem Owned.of_kept (owned : t.Owned s) (parent : ∀ i p : Nat, t.parent? i = some p → t'.parent? i = some p)
    (closed : ∀ i : Nat, (t.closedName? i).isSome → (t'.closedName? i).isSome) : t'.Owned s := by
  intro name ids mem id id_mem
  obtain ⟨outer, held, isClosed⟩ := owned name ids mem id id_mem
  exact ⟨outer, parent id outer held, closed outer isClosed⟩

theorem Owned.addRoot (owned : t.Owned s) : t.addRoot.Owned s :=
  owned.of_kept (fun i _ held => (parent?_addRoot t i).trans held) fun i isClosed =>
    (Gathered.closedName?_addRoot t i).symm ▸ isClosed

theorem Owned.append (owned : t.Owned s) {parent : NodeId} (inside : parent < t.size) {kind : NodeKind}
    (fresh : kind.closedName? = none) (offset : Nat) : (t.append parent kind offset).Owned s := by
  refine owned.of_kept (fun i p held => ?_) fun i isClosed => ?_
  · rw [parent?_append inside, if_neg (Nat.ne_of_lt (lt_size_of_parent? held)), held]
  · rwa [Gathered.closedName?_append offset inside fresh]

theorem Owned.setState (owned : t.Owned s) {id : NodeId} (unclosed : t.closedName? id = none) (state : BlockState) :
    (t.setState id state).Owned s := by
  refine owned.of_kept (fun i p held => (parent?_setState ..).trans held) fun i isClosed => ?_
  rw [Gathered.closedName?_setState, if_neg]
  · exact isClosed
  · rintro rfl
    rw [unclosed] at isClosed
    cases isClosed

/-- What a definition held becomes a body of its name. -/
theorem Owned.close (owned : t.Owned s) {path : List NodeId} (g : t.Gathered s path) {id : NodeId} (mem : id ∈ path)
    {name : Text} {attributes : Attributes} {state : BlockState}
    (kind : t.kind? id = some (.definition name attributes state)) :
    (Gathered.closing t id).Owned (s.push name (t.children id)) := by
  have closed := Gathered.closedName?_closing kind
  have kept : (Gathered.closing t id).Owned s := by
    refine owned.of_kept (fun i p held => (Gathered.parent?_closing ..).trans held) fun i isClosed => ?_
    rw [closed]
    split
    · rfl
    · exact isClosed
  intro other ids body_mem child child_mem
  by_cases same : other = name
  · rw [same, BlockStack.push, BlockStack.slot_modify_same] at body_mem
    rcases List.mem_append.1 body_mem with old | new
    · exact kept name ids old child child_mem
    · cases List.mem_singleton.1 new
      rw [g.children, g.unclosed id mem] at child_mem
      refine ⟨id, ?_, ?_⟩
      · rw [Gathered.parent?_closing]
        exact (mem_offspring_iff ..).1 child_mem
      · rw [closed, if_pos rfl]
        rfl
  · rw [BlockStack.push, BlockStack.slot_modify_ne _ _ same] at body_mem
    exact kept other ids body_mem child child_mem

end Tree

namespace Builder

variable {b : Builder}

theorem owned_foldl_abandon {path : List NodeId} (ids : List NodeId) :
    ∀ b : Builder, b.tree.Gathered b.blocks path → (∀ id ∈ ids, id ∈ path) → b.tree.Owned b.blocks →
      (ids.foldl abandon b).tree.Owned (ids.foldl abandon b).blocks := by
  induction ids with
  | nil => exact fun _ _ _ owned => owned
  | cons id ids ih =>
    intro b g mem owned
    have here := mem id (List.mem_cons_self ..)
    exact ih (b.abandon id) (gathered_abandon g here) (fun i i_mem => mem i (List.mem_cons_of_mem _ i_mem))
      (owned.setState (g.unclosed id here) .abandoned)

theorem owned_close {path : List NodeId} (g : b.tree.Gathered b.blocks path) {id : NodeId} (mem : id ∈ path)
    (owned : b.tree.Owned b.blocks) : (b.close id).tree.Owned (b.close id).blocks := by
  have kind := Tree.kind?_setState b.tree id .closed id
  rw [if_pos rfl] at kind
  unfold close
  dsimp only
  split
  · rename_i name attributes state found
    rw [found] at kind
    obtain ⟨k, was, eq⟩ := Option.map_eq_some_iff.1 kind.symm
    cases k <;> cases eq
    have closed := owned.close g mem was
    rw [← Tree.children_setState b.tree id .closed id] at closed
    exact closed
  · exact owned.setState (g.unclosed id mem) .closed

theorem owned_openBlock (sound : b.Sound) (owned : b.tree.Owned b.blocks) (tag : Tag) (selfClosing : Bool)
    (offset : Nat) : (b.openBlock tag selfClosing offset).tree.Owned (b.openBlock tag selfClosing offset).blocks := by
  have added : (b.add (blockKind tag) offset).tree.Owned (b.add (blockKind tag) offset).blocks :=
    owned.append (inside_current sound) (closedName?_blockKind tag) offset
  cases selfClosing with
  | true => exact owned_close (gathered_add sound (closedName?_blockKind tag) offset) (List.mem_cons_self ..) added
  | false => exact added

theorem owned_closeBlock (sound : b.Sound) (owned : b.tree.Owned b.blocks) (name : Text) (offset : Nat) :
    (b.closeBlock name offset).tree.Owned (b.closeBlock name offset).blocks := by
  rcases closeBlock_cases sound name offset with eq | ⟨inner, matched, outer, path, -, -, -, eq⟩
  · rw [eq]
    exact owned
  · have inside : ∀ id ∈ inner, id ∈ b.openPath := fun id mem => path ▸ List.mem_append_left _ mem
    have matched_mem : matched ∈ b.openPath := path ▸ List.mem_append_right _ (List.mem_cons_self ..)
    rw [eq]
    exact owned_close (gathered_foldl_abandon inner b sound.gathered inside).1 matched_mem
      (owned_foldl_abandon inner b sound.gathered inside owned)

theorem owned_push (sound : b.Sound) (owned : b.tree.Owned b.blocks) (t : Token) :
    (b.push t).tree.Owned (b.push t).blocks := by
  have pushed := pushed_push b t
  generalize b.push t = b' at pushed ⊢
  cases pushed with
  | leaf settled _ _ =>
    exact owned.append (inside_current sound) (NodeKind.closedName?_of_settled settled) t.start
  | extending _ => exact owned
  | opening _ _ => exact owned_openBlock sound owned _ _ _
  | closing _ _ => exact owned_closeBlock sound owned _ _

theorem owned_foldl_push (tokens : List Token) :
    ∀ b : Builder, b.Sound → b.tree.Owned b.blocks →
      (tokens.foldl push b).tree.Owned (tokens.foldl push b).blocks := by
  induction tokens with
  | nil => exact fun _ _ owned => owned
  | cons t tokens ih =>
    intro b sound owned
    exact ih (b.push t) (sound_push sound t) (owned_push sound owned t)

end Builder

theorem Tree.owned_build {tree : Tree} {blocks : BlockStack} (tokens : List Token) (source : Text)
    (g : tree.Gathered blocks []) (owned : tree.Owned blocks) :
    (Tree.build tokens source tree blocks).tree.Owned (Tree.build tokens source tree blocks).blocks := by
  have read := Builder.owned_foldl_push tokens _ (Builder.sound_start source g) owned.addRoot
  obtain ⟨tree_eq, blocks_eq, -⟩ := Builder.foldl_reportMissing _
    (tokens.foldl Builder.push (Builder.start source tree blocks))
  rw [Tree.build, Builder.finish, tree_eq, blocks_eq]
  exact read

namespace Chain

variable {s : Settings} {fs : FileSystem}

theorem owned_of_follows {c chain : Chain} {origin : Option Template} {source : Text} {further : List Location}
    (follows : Follows s fs c origin source further chain) (g : c.tree.Gathered c.blocks [])
    (owned : c.tree.Owned c.blocks) : chain.tree.Owned chain.blocks := by
  induction follows with
  | last _ => exact Tree.owned_build _ _ g owned
  | next _ _ _ _ _ ih => exact ih (Tree.gathered_build _ _ g) (Tree.owned_build _ _ g owned)

/-- **Every node of a body of a chain was held by a closed definition.** -/
theorem owned_of_ofSource {origin : Option Template} {source : Text} {log : List Event} {chain : Chain}
    (built : ((ofSource s fs origin source).run log).1 = .ok chain) : chain.tree.Owned chain.blocks := by
  obtain ⟨_, follows⟩ := ofSource_eq_ok_iff.1 built
  exact owned_of_follows follows gathered_empty fun _ _ mem => nomatch mem

end Chain

end TagTemplate
