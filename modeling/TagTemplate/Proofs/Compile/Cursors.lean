/-
# Proofs.Compile.Cursors -- a body never meets itself

A body can ask for its own name, for a name whose body asks for it, and for the nodes
around it.  While its nodes are compiled an empty text stands in its place, which would
end such a circle.  The cursors see to it that this text is never read
(`cursor_discipline`).

In every moment of a run (`Disciplined`) the cursor of a name counts the bodies of that
name that are being compiled, and these are the ones before the cursor, from the
outermost in.  So the next body of the name is further in than all of them.  This is
kept where a body is begun and where it is finished; the other steps have nothing to do
with it.

Two things follow.  No step looks into the places of the bodies that are being compiled,
so a run on a block stack that differs there is the same run (`AlikeAround`), and
anything can stand there, also the body itself.  And a body that is finished is not begun
again (`Ended`), so only one text comes out of it: what the compiler answers for its nodes
(`resultOf_of_comesOut`).
-/
import TagTemplate.Proofs.Compile.Draft
import TagTemplate.Proofs.Compile.Moment

namespace TagTemplate

set_option autoImplicit false

open Relation (ReflTransGen)

namespace Compiler

variable {σ : Type}

/-! ## Positions -/

/-- The positions of the bodies of a name among some that are being compiled. -/
def positionsOf (name : Text) (os : List Opened) : List Nat := (os.filter (·.name = name)).map (·.position)

def positions (name : Text) (frames : List Frame) : List Nat := positionsOf name (opened frames)

section Positions

variable {name : Text} {o : Opened} {os : List Opened}

theorem positionsOf_cons_same (o : Opened) (os : List Opened) :
    positionsOf o.name (o :: os) = o.position :: positionsOf o.name os := by
  simp [positionsOf]

theorem positionsOf_cons_ne (ne : name ≠ o.name) : positionsOf name (o :: os) = positionsOf name os := by
  simp [positionsOf, Ne.symm ne]

theorem position_mem_positionsOf (mem : o ∈ os) : o.position ∈ positionsOf o.name os :=
  List.mem_map_of_mem (List.mem_filter.2 ⟨mem, by simp⟩)

theorem mem_positionsOf_cons {level : Nat} (mem : level ∈ positionsOf name os) :
    level ∈ positionsOf name (o :: os) := by
  by_cases same : name = o.name
  · subst same
    rw [positionsOf_cons_same]
    exact List.mem_cons_of_mem _ mem
  · rwa [positionsOf_cons_ne same]

theorem mem_of_mem_positionsOf_cons {level : Nat} (mem : level ∈ positionsOf name (o :: os))
    (apart : name = o.name → level ≠ o.position) : level ∈ positionsOf name os := by
  by_cases same : name = o.name
  · subst same
    rw [positionsOf_cons_same] at mem
    exact (List.mem_cons.1 mem).resolve_left (apart rfl)
  · rwa [positionsOf_cons_ne same] at mem

end Positions

/-! ## The invariant -/

/-- **The cursor discipline**, inside of some bodies.  The block stack was `before` when the run began, and `comes` says
which texts come out of which bodies. -/
structure Disciplined (before : BlockStack) (comes : Opened → Text → Prop) (os : List Opened) (now : BlockStack) :
    Prop where
  /-- The cursor of a name counts its bodies. -/
  cursor : ∀ name, (now.slot name).cursor = (os.map (·.name)).count name
  /-- They are at 0, 1, 2 and so on, from the outermost in. -/
  positions : ∀ name, (positionsOf name os).reverse = List.range ((os.map (·.name)).count name)
  /-- In the place of each of them is an empty text. -/
  parked : ∀ o ∈ os, (now.slot o.name).bodies[o.position]? = some (.compiled [])
  /-- Each of them is compiled from what was there before. -/
  origin : ∀ o ∈ os, (before.slot o.name).bodies[o.position]? = some (.pending o.nodes)
  /-- All other bodies are as they were, or what came out of them is in their place. -/
  others : ∀ name level, level ∉ positionsOf name os →
    (now.slot name).bodies[level]? = (before.slot name).bodies[level]? ∨
      ∃ ids text, (before.slot name).bodies[level]? = some (.pending ids) ∧ comes ⟨name, level, ids⟩ text ∧
        (now.slot name).bodies[level]? = some (.compiled text)

namespace Disciplined

variable {before now : BlockStack} {comes : Opened → Text → Prop} {os : List Opened}

/-- When no body is being compiled all cursors are zero. -/
theorem outside (fresh : ∀ name, (before.slot name).cursor = 0) : Disciplined before comes [] before where
  cursor name := fresh name
  positions _ := rfl
  parked _ mem := nomatch mem
  origin _ mem := nomatch mem
  others _ _ _ := .inl rfl

/-- **The cursor is further in than all bodies that are being compiled.** -/
theorem lt_cursor (disciplined : Disciplined before comes os now) {name : Text} {position : Nat}
    (mem : position ∈ positionsOf name os) : position < (now.slot name).cursor := by
  rw [disciplined.cursor, ← List.mem_range, ← disciplined.positions, List.mem_reverse]
  exact mem

theorem cursor_not_mem (disciplined : Disciplined before comes os now) (name : Text) :
    (now.slot name).cursor ∉ positionsOf name os :=
  fun mem => Nat.lt_irrefl _ (disciplined.lt_cursor mem)

/-- **A body is begun.** -/
theorem begin (disciplined : Disciplined before comes os now) {name : Text} {ids : List NodeId}
    (next : (now.slot name).bodies[(now.slot name).cursor]? = some (.pending ids)) :
    Disciplined before comes (⟨name, (now.slot name).cursor, ids⟩ :: os) (now.enter name (now.slot name).cursor) where
  cursor other := by
    by_cases same : other = name
    · subst same
      rw [BlockStack.slot_enter, List.map_cons, List.count_cons_self, ← disciplined.cursor]
    · rw [BlockStack.slot_enter_ne _ _ same, List.map_cons, List.count_cons_of_ne (Ne.symm same), disciplined.cursor]
  positions other := by
    by_cases same : other = name
    · subst same
      rw [positionsOf_cons_same ⟨other, (now.slot other).cursor, ids⟩, List.reverse_cons, disciplined.positions,
        List.map_cons, List.count_cons_self, List.range_succ, disciplined.cursor]
    · rw [positionsOf_cons_ne (o := ⟨name, (now.slot name).cursor, ids⟩) same, List.map_cons,
        List.count_cons_of_ne (Ne.symm same), disciplined.positions]
  parked o mem := by
    rcases List.mem_cons.1 mem with rfl | mem
    · exact now.body_put_same (· + 1) _ next
    · have apart : o.name = name → o.position ≠ (now.slot name).cursor := fun same =>
        Nat.ne_of_lt (same ▸ disciplined.lt_cursor (position_mem_positionsOf mem))
      exact (now.body_put_apart (· + 1) _ apart).trans (disciplined.parked o mem)
  origin o mem := by
    rcases List.mem_cons.1 mem with rfl | mem
    · rcases disciplined.others name _ (disciplined.cursor_not_mem name) with same | ⟨_, _, _, _, kept⟩
      · exact same.symm.trans next
      · rw [next] at kept
        cases kept
    · exact disciplined.origin o mem
  others other level outside := by
    have apart : other = name → level ≠ (now.slot name).cursor := by
      rintro rfl rfl
      rw [positionsOf_cons_same ⟨other, (now.slot other).cursor, ids⟩] at outside
      exact outside (List.mem_cons_self ..)
    have unchanged : ((now.enter name (now.slot name).cursor).slot other).bodies[level]? = _ :=
      now.body_put_apart (· + 1) _ apart
    rw [unchanged]
    exact disciplined.others other level fun mem => outside (mem_positionsOf_cons mem)

/-- The innermost body of a name is at the number of those around it. -/
theorem innermost {o : Opened} (disciplined : Disciplined before comes (o :: os) now) :
    (positionsOf o.name os).reverse = List.range ((os.map (·.name)).count o.name) ∧
      o.position = (os.map (·.name)).count o.name := by
  have all := disciplined.positions o.name
  rw [positionsOf_cons_same, List.reverse_cons, List.map_cons, List.count_cons_self, List.range_succ] at all
  obtain ⟨around, last⟩ := List.append_inj' all rfl
  exact ⟨around, List.singleton_inj.1 last⟩

/-- No other body that is being compiled is in the place of the innermost one. -/
theorem innermost_apart {o : Opened} (disciplined : Disciplined before comes (o :: os) now) :
    o.position ∉ positionsOf o.name os := by
  obtain ⟨around, position⟩ := disciplined.innermost
  rw [← List.mem_reverse, around, position, List.mem_range]
  exact Nat.lt_irrefl _

/-- **A body is finished.** -/
theorem finish {o : Opened} (disciplined : Disciplined before comes (o :: os) now) {text : Text}
    (out : comes o text) : Disciplined before comes os (now.leave o.name o.position (.compiled text)) where
  cursor name := by
    by_cases same : name = o.name
    · subst same
      rw [BlockStack.slot_leave, disciplined.cursor, List.map_cons, List.count_cons_self, Nat.add_sub_cancel]
    · rw [BlockStack.slot_leave_ne _ _ _ same, disciplined.cursor, List.map_cons, List.count_cons_of_ne (Ne.symm same)]
  positions name := by
    by_cases same : name = o.name
    · subst same
      exact disciplined.innermost.1
    · have all := disciplined.positions name
      rwa [positionsOf_cons_ne same, List.map_cons, List.count_cons_of_ne (Ne.symm same)] at all
  parked p mem := by
    have apart : p.name = o.name → p.position ≠ o.position := fun same eq =>
      disciplined.innermost_apart (eq ▸ same ▸ position_mem_positionsOf mem)
    exact (now.body_put_apart (· - 1) _ apart).trans (disciplined.parked p (List.mem_cons_of_mem _ mem))
  origin p mem := disciplined.origin p (List.mem_cons_of_mem _ mem)
  others name level outside := by
    by_cases here : name = o.name ∧ level = o.position
    · obtain ⟨rfl, rfl⟩ := here
      exact .inr ⟨o.nodes, text, disciplined.origin o (List.mem_cons_self ..), out,
        now.body_put_same (· - 1) _ (disciplined.parked o (List.mem_cons_self ..))⟩
    · have apart : name = o.name → level ≠ o.position := fun same eq => here ⟨same, eq⟩
      have unchanged : ((now.leave o.name o.position (.compiled text)).slot name).bodies[level]? = _ :=
        now.body_put_apart (· - 1) _ apart
      rw [unchanged]
      exact disciplined.others name level fun mem => outside (mem_of_mem_positionsOf_cons mem apart)

end Disciplined

/-! ## Every moment of a run -/

/-- A moment of what a new compiler does for a request. -/
def During (c : Compiler σ) (s : CompileState σ) (r : Request) (m : Moment σ) : Prop :=
  c.Leads parked ⟨.asked (c.depth s.blocks) r, [], s⟩ m

/-- A text is taken up to the frame of a body. -/
def ComesOut (c : Compiler σ) (s : CompileState σ) (r : Request) (o : Opened) (text : Text) : Prop :=
  ∃ frames now, c.During s r (replied (text, now) (.body o :: frames))

/-- **The result of a body**: what the compiler answers where the nodes of the body are asked for. -/
def ResultOf (c : Compiler σ) (s : CompileState σ) (r : Request) (o : Opened) (text : Text) : Prop :=
  ∃ depth frames now, c.During s r ⟨.asked depth (.nodes o.nodes), .body o :: frames, now⟩ ∧
    (c.answer depth (activeNames (.body o :: frames)) (.nodes o.nodes) now).1 = text

section Runs

variable {c : Compiler σ} {s : CompileState σ} {r : Request} {m m' : Moment σ}

/-- **The discipline holds in every moment.** -/
theorem disciplined_of_during (fresh : ∀ name, (s.blocks.slot name).cursor = 0) (during : c.During s r m) :
    Disciplined s.blocks (c.ComesOut s r) (opened m.frames) m.state.blocks := by
  induction during with
  | refl => exact .outside fresh
  | @tail m _ earlier step ih =>
    cases moves_of_steps step with
    | aside same _ blocks =>
      rw [same, blocks]
      exact ih
    | reads _ _ => exact ih
    | begins _ next => exact ih.begin next
    | finishes focus top =>
      obtain ⟨focus', frames, now⟩ := m
      cases focus
      cases top
      exact Disciplined.finish ih ⟨_, now, earlier⟩

/-- A body that is being compiled was begun: its nodes were asked for. -/
theorem exists_begun_of_during (during : c.During s r m) : ∀ o ∈ opened m.frames,
    ∃ depth frames now, c.During s r ⟨.asked depth (.nodes o.nodes), .body o :: frames, now⟩ := by
  induction during with
  | refl => exact fun _ mem => nomatch mem
  | @tail m _ earlier step ih =>
    cases moves_of_steps step with
    | aside same _ _ => exact fun o mem => ih o (same ▸ mem)
    | reads _ _ => exact ih
    | begins _ _ =>
      intro o mem
      rcases List.mem_cons.1 mem with rfl | mem
      · exact ⟨_, _, _, earlier.tail step⟩
      · exact ih o mem
    | finishes _ top =>
      rw [top] at ih
      exact fun o mem => ih o (List.mem_cons_of_mem _ mem)

/-! ## A body has one result -/

/-- A body is over: it is not being compiled and is not to be. -/
structure Ended (o : Opened) (m : Moment σ) : Prop where
  outside : o.position ∉ positionsOf o.name (opened m.frames)
  settled : ∀ ids, (m.state.blocks.slot o.name).bodies[o.position]? ≠ some (.pending ids)

/-- A body that is over stays so. -/
theorem Ended.step {place : Placeholder} {o : Opened} (ended : Ended o m) (moves : Moves place c m m') :
    Ended o m' := by
  cases moves with
  | aside same _ blocks =>
    refine ⟨?_, ?_⟩
    · rw [same]
      exact ended.outside
    · rw [blocks]
      exact ended.settled
  | reads _ _ => exact ⟨ended.outside, ended.settled⟩
  | @begins _ name ids _ next =>
    have apart : o.name = name → o.position ≠ (m.state.blocks.slot name).cursor := by
      intro same eq
      exact ended.settled ids (by rw [same, eq]; exact next)
    refine ⟨fun mem => ended.outside (mem_of_mem_positionsOf_cons mem apart), fun ids' pending => ?_⟩
    exact ended.settled ids' ((m.state.blocks.body_put_apart (· + 1) _ apart).symm.trans pending)
  | @finishes text p frames _ top =>
    have outside := ended.outside
    rw [top] at outside
    have apart : o.name = p.name → o.position ≠ p.position := by
      intro same eq
      rw [same, eq] at outside
      exact outside (position_mem_positionsOf (List.mem_cons_self ..))
    refine ⟨fun mem => outside (mem_positionsOf_cons mem), fun ids pending => ?_⟩
    exact ended.settled ids ((m.state.blocks.body_put_apart (· - 1) _ apart).symm.trans pending)

theorem Ended.leads {place : Placeholder} {o : Opened} (ended : Ended o m) (leads : c.Leads place m m') :
    Ended o m' := by
  induction leads with
  | refl => exact ended
  | tail _ step ih => exact ih.step (moves_of_steps step)

/-- Once the text of a body has been taken up, the body is over. -/
theorem eq_of_leads_of_comesOut (fresh : ∀ name, (s.blocks.slot name).cursor = 0) {o : Opened} {text text' : Text}
    {frames frames' : List Frame} {now now' : CompileState σ}
    (during : c.During s r (replied (text, now) (.body o :: frames)))
    (leads : c.Leads parked (replied (text, now) (.body o :: frames)) (replied (text', now') (.body o :: frames'))) :
    text' = text := by
  rcases leads.cases_head with same | ⟨next, step, later⟩
  · cases same
    rfl
  · have disciplined := disciplined_of_during fresh during
    have empty := disciplined.parked o (List.mem_cons_self ..)
    cases step
    have ended : Ended o (replied (text, finished now o text) frames) := by
      refine ⟨disciplined.innermost_apart, fun ids pending => ?_⟩
      cases pending.symm.trans (now.blocks.body_put_same (· - 1) (.compiled text) empty)
    exact absurd (position_mem_positionsOf (List.mem_cons_self ..)) (ended.leads later).outside

/-- **Only one text comes out of a body.** -/
theorem comesOut_unique (fresh : ∀ name, (s.blocks.slot name).cursor = 0) {o : Opened} {text text' : Text}
    (one : c.ComesOut s r o text) (two : c.ComesOut s r o text') : text' = text := by
  obtain ⟨frames, now, during⟩ := one
  obtain ⟨frames', now', during'⟩ := two
  rcases ReflTransGen.total_of_right_unique (rightUnique_steps parked c) during during' with leads | leads
  · exact eq_of_leads_of_comesOut fresh during leads
  · exact (eq_of_leads_of_comesOut fresh during' leads).symm

/-- **What comes out of a body is its result.** -/
theorem resultOf_of_comesOut (fresh : ∀ name, (s.blocks.slot name).cursor = 0) {o : Opened} {text : Text}
    (comes : c.ComesOut s r o text) : c.ResultOf s r o text := by
  have ⟨_, _, during'⟩ := comes
  obtain ⟨depth, frames, now, during⟩ := exists_begun_of_during during' o (List.mem_cons_self ..)
  have answered := during.trans (leads_answer c depth (.nodes o.nodes) (.body o :: frames) now)
  exact ⟨depth, frames, now, during, comesOut_unique fresh comes ⟨frames, _, answered⟩⟩

/-- What a step does in the place of a body. -/
inductive Overwrites (c : Compiler σ) (s : CompileState σ) (r : Request) (m m' : Moment σ) (name : Text) (level : Nat) :
    Prop where
  | nothing (same : (m'.state.blocks.slot name).bodies[level]? = (m.state.blocks.slot name).bodies[level]?)
  /-- The body is begun, and an empty text is put there. -/
  | begins {ids : List NodeId} (pending : (m.state.blocks.slot name).bodies[level]? = some (.pending ids))
      (inside : opened m'.frames = ⟨name, level, ids⟩ :: opened m.frames)
      (empty : (m'.state.blocks.slot name).bodies[level]? = some (.compiled []))
  /-- The body is finished, and its result is put in the place of the empty text. -/
  | finishes {ids : List NodeId} {text : Text} (empty : (m.state.blocks.slot name).bodies[level]? = some (.compiled []))
      (inside : opened m.frames = ⟨name, level, ids⟩ :: opened m'.frames) (own : c.ResultOf s r ⟨name, level, ids⟩ text)
      (kept : (m'.state.blocks.slot name).bodies[level]? = some (.compiled text))

theorem overwrites_of_steps (fresh : ∀ name, (s.blocks.slot name).cursor = 0) (during : c.During s r m)
    (step : c.Steps parked m m') (name : Text) (level : Nat) : c.Overwrites s r m m' name level := by
  have disciplined := disciplined_of_during fresh during
  obtain ⟨focus, frames, now⟩ := m
  cases moves_of_steps step with
  | aside _ _ blocks => exact .nothing (by rw [blocks])
  | reads _ _ => exact .nothing rfl
  | @begins _ begun _ _ next =>
    by_cases here : name = begun ∧ level = (now.blocks.slot begun).cursor
    · obtain ⟨rfl, rfl⟩ := here
      exact .begins next rfl (now.blocks.body_put_same (· + 1) _ next)
    · exact .nothing (now.blocks.body_put_apart (· + 1) _ fun same eq => here ⟨same, eq⟩)
  | @finishes text o frames focus top =>
    cases focus
    cases top
    by_cases here : name = o.name ∧ level = o.position
    · obtain ⟨rfl, rfl⟩ := here
      have empty := disciplined.parked o (List.mem_cons_self ..)
      exact .finishes empty rfl (resultOf_of_comesOut fresh ⟨_, _, during⟩) (now.blocks.body_put_same (· - 1) _ empty)
    · exact .nothing (now.blocks.body_put_apart (· - 1) _ fun same eq => here ⟨same, eq⟩)

end Runs

/-! ## Whatever stands in the place of a body -/

/-- Two block stacks that differ in the places of some bodies at most. -/
structure AlikeAround (os : List Opened) (now other : BlockStack) : Prop where
  cursor : ∀ name, (other.slot name).cursor = (now.slot name).cursor
  length : ∀ name, (other.slot name).bodies.length = (now.slot name).bodies.length
  body : ∀ name level, level ∉ positionsOf name os →
    (other.slot name).bodies[level]? = (now.slot name).bodies[level]?

namespace AlikeAround

variable {os os' : List Opened} {now other : BlockStack}

/-- A body is put in one place of both. -/
theorem put (alike : AlikeAround os now other) {name : Text} {position : Nat} (move : Nat → Nat) {body body' : Body}
    (there : position ∉ positionsOf name os' → body' = body)
    (elsewhere : ∀ name' level, (name' = name → level ≠ position) → level ∉ positionsOf name' os' →
      level ∉ positionsOf name' os) :
    AlikeAround os' (now.modify name fun slot => ⟨move slot.cursor, slot.bodies.set position body⟩)
      (other.modify name fun slot => ⟨move slot.cursor, slot.bodies.set position body'⟩) where
  cursor name' := by
    by_cases same : name' = name
    · subst same
      simp only [BlockStack.slot_modify_same, alike.cursor]
    · simp only [BlockStack.slot_modify_ne _ _ same, alike.cursor]
  length name' := by
    by_cases same : name' = name
    · subst same
      simp only [BlockStack.slot_modify_same, List.length_set, alike.length]
    · simp only [BlockStack.slot_modify_ne _ _ same, alike.length]
  body name' level outside := by
    by_cases here : name' = name ∧ level = position
    · obtain ⟨rfl, rfl⟩ := here
      simp only [BlockStack.slot_modify_same, List.getElem?_set, there outside, alike.length, if_true]
    · have apart : name' = name → level ≠ position := fun same eq => here ⟨same, eq⟩
      rw [BlockStack.body_put_apart _ _ _ apart, BlockStack.body_put_apart _ _ _ apart]
      exact alike.body name' level (elsewhere name' level apart outside)

/-- A body is begun on both, whatever is put in its place. -/
theorem begin (alike : AlikeAround os now other) (o : Opened) (body body' : Body) :
    AlikeAround (o :: os) (now.modify o.name fun slot => ⟨slot.cursor + 1, slot.bodies.set o.position body⟩)
      (other.modify o.name fun slot => ⟨slot.cursor + 1, slot.bodies.set o.position body'⟩) := by
  refine alike.put (· + 1) (fun outside => ?_) fun _ _ _ outside mem => outside (mem_positionsOf_cons mem)
  rw [positionsOf_cons_same] at outside
  exact absurd (List.mem_cons_self ..) outside

/-- A body is finished on both: from then on its place is the same. -/
theorem finish {o : Opened} (alike : AlikeAround (o :: os) now other) (text : Text) :
    AlikeAround os (now.leave o.name o.position (.compiled text)) (other.leave o.name o.position (.compiled text)) :=
  alike.put (· - 1) (fun _ => rfl) fun _ _ apart outside mem => outside (mem_of_mem_positionsOf_cons mem apart)

/-- Stacks that differ in no place have the same slots. -/
theorem slot_eq (alike : AlikeAround [] now other) (name : Text) : other.slot name = now.slot name := by
  have bodies : (other.slot name).bodies = (now.slot name).bodies :=
    List.ext_getElem? fun level => alike.body name level List.not_mem_nil
  show Slot.mk (other.slot name).cursor (other.slot name).bodies = _
  rw [alike.cursor, bodies]

end AlikeAround

section Unguarded

variable {c : Compiler σ} {m m' : Moment σ} {other : BlockStack}

theorem atBody_of_kept (place : Placeholder) (depth : Nat) (frames : List Frame) {name text : Text}
    {s : CompileState σ} (kept : keptText? (s.blocks.slot name).bodies[(s.blocks.slot name).cursor]? = some text) :
    atBody place depth name frames s = replied (text, s) frames := by
  unfold atBody
  cases next : (s.blocks.slot name).bodies[(s.blocks.slot name).cursor]? with
  | none =>
    rw [next] at kept
    cases kept
    rfl
  | some body =>
    rw [next] at kept
    cases body with
    | compiled output =>
      cases kept
      rfl
    | pending ids => cases kept

theorem atBody_of_pending (place : Placeholder) (depth : Nat) (frames : List Frame) {name : Text} {ids : List NodeId}
    {s : CompileState σ} (next : (s.blocks.slot name).bodies[(s.blocks.slot name).cursor]? = some (.pending ids)) :
    atBody place depth name frames s =
      ⟨.asked depth (.nodes ids), .body ⟨name, (s.blocks.slot name).cursor, ids⟩ :: frames,
        begun place s ⟨name, (s.blocks.slot name).cursor, ids⟩⟩ := by
  unfold atBody
  rw [next]

/-- **A step does not look into the places of the bodies that are being compiled**, so it is the same step whatever
stands there. -/
theorem exists_step_of_alike {before : BlockStack} {comes : Opened → Text → Prop}
    (disciplined : Disciplined before comes (opened m.frames) m.state.blocks)
    (alike : AlikeAround (opened m.frames) m.state.blocks other) (moves : Moves parked c m m') (place : Placeholder) :
    ∃ other', c.Steps place (m.onto other) (m'.onto other') ∧
      AlikeAround (opened m'.frames) m'.state.blocks other' := by
  -- What is read at a cursor is the same on both stacks.
  have same_next (name : Text) : (other.slot name).bodies[(other.slot name).cursor]?
      = (m.state.blocks.slot name).bodies[(m.state.blocks.slot name).cursor]? := by
    rw [alike.cursor]
    exact alike.body name _ (disciplined.cursor_not_mem name)
  obtain ⟨focus, frames, s⟩ := m
  cases moves with
  | aside same anywhere blocks =>
    refine ⟨other, anywhere place other, ?_⟩
    rw [same, blocks]
    exact alike
  | @reads depth name text focus kept =>
    cases focus
    have kept' : keptText? (other.slot name).bodies[(other.slot name).cursor]? = some text :=
      (congrArg keptText? (same_next name)).trans kept
    exact ⟨other, congrArg some (atBody_of_kept place depth frames kept'), alike⟩
  | @begins depth name ids focus next =>
    cases focus
    have next' : (other.slot name).bodies[(other.slot name).cursor]? = some (.pending ids) :=
      (same_next name).trans next
    have cursor : (other.slot name).cursor = (s.blocks.slot name).cursor := alike.cursor name
    have step := atBody_of_pending place depth frames (s := { s with blocks := other }) next'
    dsimp only at step
    rw [cursor] at step
    exact ⟨_, congrArg some step, alike.begin ⟨name, (s.blocks.slot name).cursor, ids⟩ _ _⟩
  | @finishes text o frames focus top =>
    cases focus
    cases top
    exact ⟨_, rfl, alike.finish text⟩

/-- **A run is the same whatever stands in the place of a body.** -/
theorem exists_leads_of_during {s : CompileState σ} {r : Request} (fresh : ∀ name, (s.blocks.slot name).cursor = 0)
    (during : c.During s r m) (place : Placeholder) :
    ∃ other, c.Leads place ⟨.asked (c.depth s.blocks) r, [], s⟩ (m.onto other) ∧
      AlikeAround (opened m.frames) m.state.blocks other := by
  induction during with
  | refl => exact ⟨s.blocks, .refl, fun _ => rfl, fun _ => rfl, fun _ _ _ => rfl⟩
  | tail earlier step ih =>
    obtain ⟨other, leads, alike⟩ := ih
    obtain ⟨other', step', alike'⟩ :=
      exists_step_of_alike (disciplined_of_during fresh earlier) alike (moves_of_steps step) place
    exact ⟨other', leads.tail step', alike'⟩

end Unguarded

/-! ## The cursor discipline -/

/-- **What the cursors do for a request and its result.** -/
structure KeepsApart (c : Compiler σ) (s : CompileState σ) (r : Request) (result : Text × CompileState σ) : Prop where
  /-- The moments are those of the run: each of them leads to the result. -/
  ends : ∀ m, c.During s r m → c.Leads parked m (replied result [])
  /-- The cursor of a name is how often the name occurs among the active ones. -/
  counts : ∀ m, c.During s r m → ∀ name, (m.state.blocks.slot name).cursor = (activeNames m.frames).count name
  /-- The bodies of a name that are being compiled are at 0, 1, 2 and so on, from the outermost in. -/
  stacked : ∀ m, c.During s r m → ∀ name,
    (positions name m.frames).reverse = List.range ((activeNames m.frames).count name)
  /-- The cursor, where the next body of a name is read, is further in than all of these. -/
  ahead : ∀ m, c.During s r m → ∀ name, ∀ position ∈ positions name m.frames,
    position < (m.state.blocks.slot name).cursor
  /-- A text that is read there is no placeholder: it was there from the start, or it is the result of that body. -/
  reads : ∀ m, c.During s r m → ∀ name text,
    (m.state.blocks.slot name).bodies[(m.state.blocks.slot name).cursor]? = some (.compiled text) →
    (s.blocks.slot name).bodies[(m.state.blocks.slot name).cursor]? = some (.compiled text) ∨
      ∃ ids, (s.blocks.slot name).bodies[(m.state.blocks.slot name).cursor]? = some (.pending ids) ∧
        c.ResultOf s r ⟨name, (m.state.blocks.slot name).cursor, ids⟩ text
  /-- A body is overwritten by the placeholder when it is begun, and by its own result when it is finished. -/
  overwrites : ∀ m m', c.During s r m → c.Steps parked m m' → ∀ name level, c.Overwrites s r m m' name level
  /-- Whatever stands in the place of a body while it is compiled, also the body itself, the result is the same. -/
  unguarded : ∀ place, ∃ blocks, (∀ name, blocks.slot name = result.2.blocks.slot name) ∧
    c.Leads place ⟨.asked (c.depth s.blocks) r, [], s⟩ (replied (result.1, { result.2 with blocks }) [])

theorem keepsApart_of_answer {c : Compiler σ} {s : CompileState σ} (fresh : ∀ name, (s.blocks.slot name).cursor = 0)
    {r : Request} {result : Text × CompileState σ} (answer : c.answer (c.depth s.blocks) [] r s = result) :
    c.KeepsApart s r result := by
  have last : c.During s r (replied result []) := answer ▸ leads_answer c (c.depth s.blocks) r [] s
  refine ⟨fun m => leads_to_end last, fun m during => ?_, fun m during => ?_, fun m during name position => ?_,
    fun m during name text read => ?_, fun m m' during step => ?_, fun place => ?_⟩
  · exact (disciplined_of_during fresh during).cursor
  · exact (disciplined_of_during fresh during).positions
  · exact (disciplined_of_during fresh during).lt_cursor
  · have disciplined := disciplined_of_during fresh during
    rcases disciplined.others name _ (disciplined.cursor_not_mem name) with same | ⟨ids, text', pending, comes, kept⟩
    · exact .inl (same.symm.trans read)
    · cases read.symm.trans kept
      exact .inr ⟨ids, pending, resultOf_of_comesOut fresh comes⟩
  · exact overwrites_of_steps fresh during step
  · obtain ⟨blocks, leads, alike⟩ := exists_leads_of_during fresh last place
    exact ⟨blocks, alike.slot_eq, leads⟩

/-- **The cursors keep a body from reaching itself.**  In whatever a new compiler is asked for, on any block stack with
all cursors at zero, the cursor of a name is further in than its bodies that are being compiled.  So what stands in
their places meanwhile is not read, and the result does not depend on it. -/
theorem cursor_discipline (c : Compiler σ) (s : CompileState σ) (fresh : ∀ name, (s.blocks.slot name).cursor = 0) :
    (∀ id, c.KeepsApart s (.node id) (c.compile id s)) ∧ (∀ name, c.KeepsApart s (.body name) (c.resolve name s)) ∧
      c.KeepsApart s .parent (c.parent s) := by
  refine ⟨fun id => ?_, fun name => ?_, ?_⟩
  · exact keepsApart_of_answer fresh (compile_eq c id s).symm
  · exact keepsApart_of_answer fresh (resolve_eq c name s).symm
  · exact keepsApart_of_answer fresh rfl

/-- In the draft whose body of `a` contains the root and itself, there is a moment in which both bodies of `a` are being
compiled, one inside of the other. -/
theorem cursor_discipline_selfContaining :
    let c := Draft.selfContaining.compiler libraryEngine.registry
    let s := Draft.selfContaining.start ()
    (∀ name, (s.blocks.slot name).cursor = 0) ∧ c.KeepsApart s (.node 0) (c.compile 0 s) ∧
      ∃ m, c.During s (.node 0) m ∧ positions ['a'] m.frames = [1, 0] := by
  intro c s
  have fresh : ∀ name, (s.blocks.slot name).cursor = 0 := Draft.reached_selfContaining.coherent.cursor
  have nested : (c.after? parked 13 ⟨.asked (c.depth s.blocks) (.node 0), [], s⟩).map (positions ['a'] ·.frames)
      = some [1, 0] := by decide +kernel
  obtain ⟨m, later, at_m⟩ := Option.map_eq_some_iff.1 nested
  exact ⟨fresh, (cursor_discipline c s fresh).1 0, m, leads_of_after? later, at_m⟩

end Compiler

end TagTemplate
