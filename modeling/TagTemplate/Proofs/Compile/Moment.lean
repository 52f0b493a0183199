/-
# Proofs.Compile.Moment -- a run of the compiler, step by step

The compiler calls itself.  Here the same run is a series of moments.  In each of them
something is asked for or a text is there, and frames say what is done with the text
afterwards, the innermost first (`Moment`).  A step (`next?`) goes down to what a text is
made of, or takes a text up to the innermost frame.

The steps lead from every question to what the compiler answers (`leads_answer`).  There
is one step at most, so they lead nowhere else: the moments that come after the question
are those of the run (`leads_to_end`).

The block stack is looked at where the body of a name is asked for.  It changes where
such a body is begun and where it is finished, in one step each, and no other step has
anything to do with it (`moves_of_steps`).  What stands in the place of a body in between
is left open (`Placeholder`); the compiler puts an empty text there (`parked`).
-/
import Mathlib.Logic.Relation
import TagTemplate.Proofs.Compile.Evaluation

namespace TagTemplate

set_option autoImplicit false

open Relation (ReflTransGen)

namespace Compiler

variable {σ : Type}

/-! ## Moments -/

/-- A body that is being compiled. -/
structure Opened where
  name : Text
  position : Nat
  nodes : List NodeId
  deriving DecidableEq, Repr

inductive Frame where
  /-- It comes behind the texts of other nodes, and further nodes come behind it. -/
  | nodes (depth : Nat) (before : Text) (ids : List NodeId)
  /-- It is the content of a block. -/
  | content (id : NodeId) (tag : Text) (attributes : Attributes)
  /-- It is the text of a body. -/
  | body (o : Opened)
  deriving DecidableEq, Repr

/-- What a moment is about. -/
inductive Focus where
  /-- Something is asked for, with a depth that is left for it. -/
  | asked (depth : Nat) (r : Request)
  | answered (text : Text)
  deriving DecidableEq, Repr

structure Moment (σ : Type) where
  focus : Focus
  frames : List Frame
  state : CompileState σ

/-- The bodies that are being compiled inside of some frames, innermost first. -/
def opened (frames : List Frame) : List Opened :=
  frames.filterMap fun
    | .body o => some o
    | _ => none

def activeNames (frames : List Frame) : List Text := (opened frames).map (·.name)

/-- What stands in the place of a body while its nodes are compiled. -/
abbrev Placeholder := List NodeId → Body

/-- An empty text stands in its place. -/
def parked : Placeholder := fun _ => .compiled []

/-! ## Steps -/

def replied (r : Text × CompileState σ) (frames : List Frame) : Moment σ := ⟨.answered r.1, frames, r.2⟩

/-- The first of some nodes is next, behind the texts of those before. -/
def atNodes (depth : Nat) (before : Text) (ids : List NodeId) (frames : List Frame) (s : CompileState σ) : Moment σ :=
  match ids with
  | [] => replied (before, s) frames
  | id :: ids => ⟨.asked depth (.node id), .nodes depth before ids :: frames, s⟩

def atNode (c : Compiler σ) (depth : Nat) (id : NodeId) (frames : List Frame) (s : CompileState σ) : Moment σ :=
  match depth with
  | 0 => replied ([], s) frames
  | depth + 1 =>
    match c.tree.kind? id with
    | none => replied ([], s) frames
    | some .root => ⟨.asked depth (.nodes (c.tree.children id)), frames, s⟩
    | some (.text t) => replied (t, s) frames
    | some (.value tag attributes raw) => replied (dispatchValue c.registry id tag attributes raw s) frames
    | some .parentValue => ⟨.asked depth .parent, frames, s⟩
    | some (.block tag attributes .closed) =>
      ⟨.asked depth (.nodes (c.tree.children id)), .content id tag attributes :: frames, s⟩
    | some (.definition name _ .closed) => ⟨.asked depth (.body name), frames, s⟩
    | some (.block ..) | some (.definition ..) => replied ([], s) frames

/-- The state in which the nodes of a body are compiled. -/
def begun (place : Placeholder) (s : CompileState σ) (o : Opened) : CompileState σ :=
  { s with
    blocks := s.blocks.modify o.name fun slot => ⟨slot.cursor + 1, slot.bodies.set o.position (place o.nodes)⟩
    events := s.events ++ [.resolvingBody o.name o.position] }

def finished (s : CompileState σ) (o : Opened) (text : Text) : CompileState σ :=
  { s with blocks := s.blocks.leave o.name o.position (.compiled text) }

def atBody (place : Placeholder) (depth : Nat) (name : Text) (frames : List Frame) (s : CompileState σ) : Moment σ :=
  match (s.blocks.slot name).bodies[(s.blocks.slot name).cursor]? with
  | none => replied ([], s) frames
  | some (.compiled output) => replied (output, s) frames
  | some (.pending ids) =>
    let o : Opened := ⟨name, (s.blocks.slot name).cursor, ids⟩
    ⟨.asked depth (.nodes ids), .body o :: frames, begun place s o⟩

def atParent (depth : Nat) (frames : List Frame) (s : CompileState σ) : Moment σ :=
  match activeNames frames with
  | [] => replied ([], s) frames
  | name :: _ => ⟨.asked depth (.body name), frames, s⟩

def resume (c : Compiler σ) (text : Text) (frames : List Frame) (s : CompileState σ) : Frame → Moment σ
  | .nodes depth before ids => atNodes depth (before ++ text) ids frames s
  | .content id tag attributes => replied (dispatchBlock c.registry id tag attributes text s) frames
  | .body o => replied (text, finished s o text) frames

/-- **The next moment**, if there is something left to do. -/
def next? (place : Placeholder) (c : Compiler σ) (m : Moment σ) : Option (Moment σ) :=
  match m.focus with
  | .asked depth (.node id) => some (c.atNode depth id m.frames m.state)
  | .asked depth (.nodes ids) => some (atNodes depth [] ids m.frames m.state)
  | .asked depth (.body name) => some (atBody place depth name m.frames m.state)
  | .asked depth .parent => some (atParent depth m.frames m.state)
  | .answered text =>
    match m.frames with
    | [] => none
    | frame :: frames => some (c.resume text frames m.state frame)

/-- A step from a moment to the next one. -/
def Steps (place : Placeholder) (c : Compiler σ) (m m' : Moment σ) : Prop := c.next? place m = some m'

abbrev Leads (place : Placeholder) (c : Compiler σ) : Moment σ → Moment σ → Prop := ReflTransGen (c.Steps place)

/-- The moment some steps later, if the run goes on for as long. -/
def after? (place : Placeholder) (c : Compiler σ) : Nat → Moment σ → Option (Moment σ)
  | 0, m => some m
  | steps + 1, m => (c.next? place m).bind (after? place c steps)

theorem leads_of_after? {place : Placeholder} {c : Compiler σ} {steps : Nat} {m m' : Moment σ}
    (later : c.after? place steps m = some m') : c.Leads place m m' := by
  induction steps generalizing m with
  | zero =>
    cases later
    exact .refl
  | succ steps ih =>
    obtain ⟨next, step, rest⟩ := Option.bind_eq_some_iff.1 later
    exact .head step (ih rest)

/-! ## Steps lead to the answer -/

section Answers

-- With some depth every node has its answer, and then so has what is made of nodes.
variable {c : Compiler σ} {depth : Nat}
  (each : ∀ id frames s, c.Leads parked ⟨.asked depth (.node id), frames, s⟩
    (replied (nodeWith .text c depth (activeNames frames) id s) frames))

include each

theorem leads_nodes (ids : List NodeId) (frames : List Frame) :
    ∀ before s, c.Leads parked (atNodes depth before ids frames s)
      (replied (before ++ (concat (nodeWith .text c depth (activeNames frames)) ids s).1,
        (concat (nodeWith .text c depth (activeNames frames)) ids s).2) frames) := by
  induction ids with
  | nil =>
    intro before s
    show c.Leads parked (replied (before, s) frames) (replied (before ++ [], s) frames)
    rw [List.append_nil]
  | cons id ids ih =>
    intro before s
    have first := each id (.nodes depth before ids :: frames) s
    have rest := ih (before ++ (nodeWith .text c depth (activeNames frames) id s).1)
      (nodeWith .text c depth (activeNames frames) id s).2
    rw [List.append_assoc] at rest
    exact first.trans (.head rfl rest)

theorem leads_body (name : Text) (frames : List Frame) (s : CompileState σ) :
    c.Leads parked ⟨.asked depth (.body name), frames, s⟩
      (replied (resolveWith .text (nodeWith .text c depth) (activeNames frames) name s) frames) := by
  refine .head rfl ?_
  unfold atBody
  cases next : (s.blocks.slot name).bodies[(s.blocks.slot name).cursor]? with
  | none =>
    rw [resolveWith_of_none next]
  | some body =>
    cases body with
    | compiled output =>
      rw [resolveWith_of_compiled next]
    | pending ids =>
      rw [resolveWith_of_pending rfl next]
      have inside := leads_nodes each ids (.body ⟨name, (s.blocks.slot name).cursor, ids⟩ :: frames) []
        (entered s name (s.blocks.slot name).cursor)
      exact .head rfl (inside.trans (.single rfl))

theorem leads_parent (frames : List Frame) (s : CompileState σ) :
    c.Leads parked ⟨.asked depth .parent, frames, s⟩
      (replied (parentWith .text (nodeWith .text c depth) (activeNames frames) s) frames) := by
  refine .head rfl ?_
  unfold atParent
  cases active : activeNames frames with
  | nil => exact .refl
  | cons name others =>
    have body := leads_body each name frames s
    rwa [active] at body

end Answers

/-- A node, with any depth. -/
theorem leads_node (c : Compiler σ) (depth : Nat) :
    ∀ id frames s, c.Leads parked ⟨.asked depth (.node id), frames, s⟩
      (replied (nodeWith .text c depth (activeNames frames) id s) frames) := by
  induction depth with
  | zero => exact fun _ _ _ => .single rfl
  | succ depth ih =>
    intro id frames s
    refine .head rfl ?_
    unfold nodeWith atNode
    cases kind : c.tree.kind? id with
    | none => exact .refl
    | some k =>
      cases k with
      | root => exact .head rfl (leads_nodes ih (c.tree.children id) frames [] s)
      | text t => exact .refl
      | value tag attributes raw => exact .refl
      | parentValue => exact leads_parent ih frames s
      | block tag attributes state =>
        cases state with
        | closed =>
          have content := leads_nodes ih (c.tree.children id) (.content id tag attributes :: frames) [] s
          exact .head rfl (content.trans (.single rfl))
        | opened => exact .refl
        | abandoned => exact .refl
      | definition name attributes state =>
        cases state with
        | closed => exact leads_body ih name frames s
        | opened => exact .refl
        | abandoned => exact .refl

/-- **Every question leads to the answer of the compiler**, inside of any frames. -/
theorem leads_answer (c : Compiler σ) (depth : Nat) (r : Request) (frames : List Frame) (s : CompileState σ) :
    c.Leads parked ⟨.asked depth r, frames, s⟩ (replied (c.answer depth (activeNames frames) r s) frames) := by
  cases r with
  | node id => exact leads_node c depth id frames s
  | nodes ids => exact .head rfl (leads_nodes (leads_node c depth) ids frames [] s)
  | body name => exact leads_body (leads_node c depth) name frames s
  | parent => exact leads_parent (leads_node c depth) frames s

/-- There is one step at most. -/
theorem rightUnique_steps (place : Placeholder) (c : Compiler σ) : Relator.RightUnique (c.Steps place) :=
  fun _ _ _ one two => Option.some.inj (one.symm.trans two)

/-- **A run has one way only**: what comes after its start comes before its end. -/
theorem leads_to_end {place : Placeholder} {c : Compiler σ} {start m : Moment σ} {r : Text × CompileState σ}
    (ends : c.Leads place start (replied r [])) (leads : c.Leads place start m) : c.Leads place m (replied r []) := by
  rcases ReflTransGen.total_of_right_unique (rightUnique_steps place c) leads ends with before | after
  · exact before
  · rcases after.cases_head with same | ⟨further, step, -⟩
    · exact same ▸ .refl
    · cases step

/-! ## What a step can do -/

def Moment.onto (m : Moment σ) (blocks : BlockStack) : Moment σ := { m with state := { m.state with blocks } }

/-- The text of a body that is not to be compiled: it is kept, or there is no body. -/
def keptText? : Option Body → Option Text
  | none => some []
  | some (.compiled output) => some output
  | some (.pending _) => none

/-- **One step.** -/
inductive Moves (place : Placeholder) (c : Compiler σ) (m : Moment σ) : Moment σ → Prop where
  /-- It has nothing to do with the block stack. -/
  | aside {m' : Moment σ} (same : opened m'.frames = opened m.frames)
      (anywhere : ∀ place blocks, c.Steps place (m.onto blocks) (m'.onto blocks))
      (blocks : m'.state.blocks = m.state.blocks) : Moves place c m m'
  /-- A text is read off the block stack. -/
  | reads {depth : Nat} {name text : Text} (focus : m.focus = .asked depth (.body name))
      (kept : keptText? (m.state.blocks.slot name).bodies[(m.state.blocks.slot name).cursor]? = some text) :
      Moves place c m (replied (text, m.state) m.frames)
  | begins {depth : Nat} {name : Text} {ids : List NodeId} (focus : m.focus = .asked depth (.body name))
      (next : (m.state.blocks.slot name).bodies[(m.state.blocks.slot name).cursor]? = some (.pending ids)) :
      Moves place c m
        (let o : Opened := ⟨name, (m.state.blocks.slot name).cursor, ids⟩
        ⟨.asked depth (.nodes ids), .body o :: m.frames, begun place m.state o⟩)
  | finishes {text : Text} {o : Opened} {frames : List Frame} (focus : m.focus = .answered text)
      (top : m.frames = .body o :: frames) : Moves place c m (replied (text, finished m.state o text) frames)

/-- Moments that come out of states, whatever block stack they have. -/
structure Aside (frames : List Frame) (next : CompileState σ → Moment σ) : Prop where
  same : ∀ s, opened (next s).frames = opened frames
  anywhere : ∀ s blocks, next { s with blocks } = (next s).onto blocks

section Asides

variable {frames : List Frame}

theorem dispatch_onto (id : NodeId) (h : Option (StateM σ Text)) (missing : Event) (s : CompileState σ)
    (blocks : BlockStack) : dispatch id h missing { s with blocks }
      = ((dispatch id h missing s).1, { (dispatch id h missing s).2 with blocks }) := by
  cases h <;> rfl

theorem aside_of_state (focus : Focus) {further : List Frame} (same : opened further = opened frames) :
    Aside (σ := σ) frames fun s => ⟨focus, further, s⟩ := ⟨fun _ => same, fun _ _ => rfl⟩

theorem aside_replied (text : Text) : Aside (σ := σ) frames fun s => replied (text, s) frames :=
  aside_of_state (.answered text) rfl

theorem aside_dispatch (id : NodeId) (h : Option (StateM σ Text)) (missing : Event) :
    Aside frames fun s => replied (dispatch id h missing s) frames where
  same _ := rfl
  anywhere s blocks := by
    show replied (dispatch id h missing { s with blocks }) frames = _
    rw [dispatch_onto]
    rfl

theorem aside_atNodes (depth : Nat) (before : Text) (ids : List NodeId) :
    Aside (σ := σ) frames fun s => atNodes depth before ids frames s := by
  cases ids with
  | nil => exact aside_replied before
  | cons id ids => exact aside_of_state _ rfl

theorem aside_atParent (depth : Nat) : Aside (σ := σ) frames fun s => atParent depth frames s := by
  unfold atParent
  cases activeNames frames with
  | nil => exact aside_replied []
  | cons name others => exact aside_of_state _ rfl

theorem aside_atNode (c : Compiler σ) (depth : Nat) (id : NodeId) :
    Aside frames fun s => c.atNode depth id frames s := by
  cases depth with
  | zero => exact aside_replied []
  | succ depth =>
    unfold atNode
    dsimp only
    cases c.tree.kind? id with
    | none => exact aside_replied []
    | some k =>
      cases k with
      | root => exact aside_of_state _ rfl
      | text t => exact aside_replied t
      | value tag attributes raw => exact aside_dispatch id _ _
      | parentValue => exact aside_of_state _ rfl
      | block tag attributes state =>
        cases state with
        | closed => exact aside_of_state _ rfl
        | opened => exact aside_replied []
        | abandoned => exact aside_replied []
      | definition name attributes state =>
        cases state with
        | closed => exact aside_of_state _ rfl
        | opened => exact aside_replied []
        | abandoned => exact aside_replied []

end Asides

/-- What has nothing to do with the block stack leaves it as it was. -/
theorem Aside.moves {place : Placeholder} {c : Compiler σ} {m : Moment σ} {frames : List Frame}
    {next : CompileState σ → Moment σ} (aside : Aside frames next) (same : opened frames = opened m.frames)
    (steps : ∀ place blocks, c.next? place (m.onto blocks) = some (next { m.state with blocks })) :
    Moves place c m (next m.state) := by
  refine .aside ((aside.same m.state).trans same) (fun place blocks => ?_) ?_
  · rw [Steps, steps, aside.anywhere]
  · exact congrArg (·.state.blocks) (aside.anywhere m.state m.state.blocks)

/-- **Every step is one of these**: the block stack matters where the body of a name is asked for, and where the text
of a body is there. -/
theorem moves_of_steps {place : Placeholder} {c : Compiler σ} {m m' : Moment σ} (step : c.Steps place m m') :
    Moves place c m m' := by
  obtain ⟨focus, frames, s⟩ := m
  cases focus with
  | asked depth r =>
    cases r with
    | node id =>
      cases step
      exact (aside_atNode c depth id).moves (m := ⟨_, frames, s⟩) rfl fun _ _ => rfl
    | nodes ids =>
      cases step
      exact (aside_atNodes depth [] ids).moves (m := ⟨_, frames, s⟩) rfl fun _ _ => rfl
    | parent =>
      cases step
      exact (aside_atParent depth).moves (m := ⟨_, frames, s⟩) rfl fun _ _ => rfl
    | body name =>
      cases step
      unfold atBody
      cases next : (s.blocks.slot name).bodies[(s.blocks.slot name).cursor]? with
      | none => exact .reads rfl (by rw [next]; rfl)
      | some body =>
        cases body with
        | compiled output => exact .reads rfl (by rw [next]; rfl)
        | pending ids => exact .begins rfl next
  | answered text =>
    cases frames with
    | nil => cases step
    | cons frame frames =>
      cases step
      cases frame with
      | nodes depth before ids =>
        exact (aside_atNodes depth (before ++ text) ids).moves (m := ⟨_, _ :: frames, s⟩) rfl fun _ _ => rfl
      | content id tag attributes =>
        exact (aside_dispatch id _ _).moves (m := ⟨_, _ :: frames, s⟩) rfl fun _ _ => rfl
      | body o => exact .finishes rfl rfl

end Compiler

end TagTemplate
