/-
# Proofs.Compile.Run -- a run of the compiler gives the text of the bodies

While bodies are being compiled the block stack is never quite the one that
compilation started with.  What holds of it at every point (`Holds`), inside of
the bodies of some names:

* the cursor of a name stands as far in as there are bodies of that name around;
* every body from the cursor on is as it was at the start, or is the text of its
  level.

Bodies before a cursor are parked and nothing is said of them.

Every step of the compiler keeps this, leaves the handlers and the number of
bodies still to be compiled no higher than they were, and gives the text that the
markup means there (`Yields`).  That is shown step by step, for a body
(`yields_resolveWith`) and for a node (`yields_nodeWith`), whichever of text or
nodes is kept of a body.  The depth that the compiler allows itself is always
enough, so no text is cut short (`compileWith_eq_meaning`).

The stack has to be layered: the text that is kept of a body is used again inside
of other bodies than those it was compiled in.
-/
import TagTemplate.Proofs.Compile.BodyText

namespace TagTemplate

set_option autoImplicit false

namespace Compiler

variable {σ : Type} (c : Compiler σ) (start : CompileState σ)

/-! ## What holds while bodies are compiled -/

/-- What holds of the block stack inside of the bodies of some names. -/
structure Holds (active : List Text) (now : BlockStack) : Prop where
  cursor : ∀ name, (now.slot name).cursor = active.count name
  length : ∀ name, (now.slot name).bodies.length = (start.blocks.slot name).bodies.length
  body : ∀ name level body, active.count name ≤ level → (now.slot name).bodies[level]? = some body →
    (start.blocks.slot name).bodies[level]? = some body ∨ body = .compiled (c.levelText start name level)

/-- A step gives a text, and keeps what holds, from every state with at most so many bodies still to
be compiled. -/
def Yields (active : List Text) (pending : Nat) (step : Step σ Text) (text : Text) : Prop :=
  ∀ s : CompileState σ, c.Holds start active s.blocks → s.handlers = start.handlers →
    s.blocks.pendingCount ≤ pending →
    (step s).1 = text ∧ c.Holds start active (step s).2.blocks ∧ (step s).2.handlers = start.handlers ∧
      (step s).2.blocks.pendingCount ≤ s.blocks.pendingCount

variable {c start}

theorem yields_return (active : List Text) (pending : Nat) (text : Text) :
    c.Yields start active pending (pure text) text :=
  fun _ holds handlers _ => ⟨rfl, holds, handlers, Nat.le_refl _⟩

theorem yields_concat {active : List Text} {pending : Nat} {compile : NodeId → Step σ Text} {sense : Sense}
    (ids : List NodeId) (each : ∀ id ∈ ids, c.Yields start active pending (compile id) ((c.tree.markup id).meaning sense)) :
    c.Yields start active pending (concat compile ids) (Markup.meanings sense (ids.map c.tree.markup)) := by
  induction ids with
  | nil => exact yields_return active pending []
  | cons id ids ih =>
    intro s holds handlers bound
    obtain ⟨first, holds₁, handlers₁, le₁⟩ := each id (List.mem_cons_self ..) s holds handlers bound
    obtain ⟨rest, holds₂, handlers₂, le₂⟩ := ih (fun id mem => each id (List.mem_cons_of_mem _ mem))
      (compile id s).2 holds₁ handlers₁ (Nat.le_trans le₁ bound)
    refine ⟨?_, holds₂, handlers₂, Nat.le_trans le₂ le₁⟩
    show (compile id s).1 ++ (concat compile ids (compile id s).2).1 = _
    rw [first, rest]
    rfl

theorem yields_dispatch (active : List Text) (pending : Nat) (id : NodeId) (h : Option (StateM σ Text))
    (missing : Event) (keeps : ∀ step, h = some step → (step start.handlers).2 = start.handlers) :
    c.Yields start active pending (dispatch id h missing)
      ((h.map fun step => (step start.handlers).1).getD []) := by
  intro s holds handlers _
  cases h with
  | none => exact ⟨rfl, holds, handlers, Nat.le_refl _⟩
  | some step =>
    refine ⟨?_, holds, ?_, Nat.le_refl _⟩
    · show (step s.handlers).1 = _
      rw [handlers]
      rfl
    · show (step s.handlers).2 = _
      rw [handlers, keeps step rfl]

theorem yields_valueTag (pure : c.registry.Pure) (active : List Text) (pending : Nat) (id : NodeId)
    (tag : Text) (attributes : Attributes) (raw : Text) :
    c.Yields start active pending
      (dispatch id ((c.registry.valueHandler? tag).map fun h => h attributes raw) (.noValueHandler tag))
      ((c.registry.sense start.handlers).value tag attributes raw) := by
  have text : (c.registry.sense start.handlers).value tag attributes raw
      = (((c.registry.valueHandler? tag).map fun h => h attributes raw).map
          fun step => (step start.handlers).1).getD [] := by
    rw [Option.map_map]
    rfl
  rw [text]
  apply yields_dispatch
  intro step found
  obtain ⟨h, eq, rfl⟩ := Option.map_eq_some_iff.1 found
  exact pure.value tag h eq attributes raw start.handlers

theorem yields_blockTag (pure : c.registry.Pure) {active : List Text} {pending : Nat} {content : Step σ Text}
    {inner : Text} (yields : c.Yields start active pending content inner) (id : NodeId) (tag : Text)
    (attributes : Attributes) :
    c.Yields start active pending
      (do
        let t ← content
        dispatch id ((c.registry.blockHandler? tag).map fun h => h attributes t) (.noBlockHandler tag))
      ((c.registry.sense start.handlers).block tag attributes inner) := by
  intro s holds handlers bound
  obtain ⟨output, holds', handlers', le⟩ := yields s holds handlers bound
  have text : (c.registry.sense start.handlers).block tag attributes inner
      = (((c.registry.blockHandler? tag).map fun h => h attributes (content s).1).map
          fun step => (step start.handlers).1).getD [] := by
    rw [Option.map_map, output]
    rfl
  obtain ⟨output', holds'', handlers'', le'⟩ := yields_dispatch active pending id
    ((c.registry.blockHandler? tag).map fun h => h attributes (content s).1) (.noBlockHandler tag)
    (fun step found => by
      obtain ⟨h, eq, rfl⟩ := Option.map_eq_some_iff.1 found
      exact pure.block tag h eq attributes (content s).1 start.handlers)
    (content s).2 holds' handlers' (Nat.le_trans le bound)
  exact ⟨output'.trans text.symm, holds'', handlers'', Nat.le_trans le' le⟩

/-! ## A body -/

theorem holds_enter {active : List Text} {now : BlockStack} {name : Text}
    (holds : c.Holds start active now) :
    c.Holds start (name :: active) (now.enter name (active.count name)) where
  cursor other := by
    by_cases same : other = name
    · subst same
      rw [BlockStack.enter, BlockStack.slot_modify_same, List.count_cons_self, holds.cursor]
    · rw [BlockStack.enter, BlockStack.slot_modify_ne _ _ same, holds.cursor,
        List.count_cons_of_ne (Ne.symm same)]
  length other := by
    by_cases same : other = name
    · subst same
      rw [BlockStack.enter, BlockStack.slot_modify_same, List.length_set, holds.length]
    · rw [BlockStack.enter, BlockStack.slot_modify_ne _ _ same, holds.length]
  body other level body le found := by
    by_cases same : other = name
    · subst same
      rw [List.count_cons_self] at le
      rw [BlockStack.enter, BlockStack.slot_modify_same, List.getElem?_set_ne (by omega)] at found
      exact holds.body other level body (by omega) found
    · rw [List.count_cons_of_ne (Ne.symm same)] at le
      rw [BlockStack.enter, BlockStack.slot_modify_ne _ _ same] at found
      exact holds.body other level body le found

theorem holds_leave {active : List Text} {now : BlockStack} {name : Text} {kept : Body}
    (holds : c.Holds start (name :: active) now)
    (good : (start.blocks.slot name).bodies[active.count name]? = some kept
      ∨ kept = .compiled (c.levelText start name (active.count name))) :
    c.Holds start active (now.leave name (active.count name) kept) where
  cursor other := by
    by_cases same : other = name
    · subst same
      rw [BlockStack.leave, BlockStack.slot_modify_same, holds.cursor, List.count_cons_self]
      exact Nat.add_sub_cancel _ _
    · rw [BlockStack.leave, BlockStack.slot_modify_ne _ _ same, holds.cursor,
        List.count_cons_of_ne (Ne.symm same)]
  length other := by
    by_cases same : other = name
    · subst same
      rw [BlockStack.leave, BlockStack.slot_modify_same, List.length_set, holds.length]
    · rw [BlockStack.leave, BlockStack.slot_modify_ne _ _ same, holds.length]
  body other level body le found := by
    by_cases same : other = name
    · subst same
      rw [BlockStack.leave, BlockStack.slot_modify_same] at found
      by_cases here : level = active.count other
      · subst here
        obtain ⟨inside, eq⟩ := List.getElem?_eq_some_iff.1 found
        rw [List.getElem_set_self] at eq
        exact eq ▸ good
      · rw [List.getElem?_set_ne (Ne.symm here)] at found
        exact holds.body other level body (by rw [List.count_cons_self]; omega) found
    · rw [BlockStack.leave, BlockStack.slot_modify_ne _ _ same] at found
      exact holds.body other level body (by rwa [List.count_cons_of_ne (Ne.symm same)]) found

section Resolve

variable {keep : Retention} {compile : List Text → NodeId → Step σ Text} {active : List Text} {name : Text}
  {s : CompileState σ}

theorem resolveWith_of_none (next : (s.blocks.slot name).bodies[(s.blocks.slot name).cursor]? = none) :
    resolveWith keep compile active name s = ([], s) := by
  simp only [resolveWith, bind, StateT.bind, get, getThe, MonadStateOf.get, StateT.get, pure, next]
  rfl

theorem resolveWith_of_compiled {output : Text}
    (next : (s.blocks.slot name).bodies[(s.blocks.slot name).cursor]? = some (.compiled output)) :
    resolveWith keep compile active name s = (output, s) := by
  simp only [resolveWith, bind, StateT.bind, get, getThe, MonadStateOf.get, StateT.get, pure, next]
  rfl

/-- The state that the nodes of a body are compiled in. -/
def entered (s : CompileState σ) (name : Text) (position : Nat) : CompileState σ :=
  { s with
    blocks := s.blocks.enter name position
    events := s.events ++ [.resolvingBody name position] }

theorem resolveWith_of_pending {ids : List NodeId} {position : Nat}
    (cursor : (s.blocks.slot name).cursor = position)
    (next : (s.blocks.slot name).bodies[position]? = some (.pending ids)) :
    resolveWith keep compile active name s =
      let r := concat (compile (name :: active)) ids (entered s name position)
      (r.1, { r.2 with blocks := r.2.blocks.leave name position (keep.body ids r.1) }) := by
  subst cursor
  simp only [resolveWith, bind, StateT.bind, get, getThe, MonadStateOf.get, StateT.get, pure, next]
  rfl

/-- A name is a text with nothing done for it, or a body that is compiled now. -/
theorem resolveWith_cases (keep : Retention) (compile : List Text → NodeId → Step σ Text) (active : List Text)
    (name : Text) (s : CompileState σ) {p : Text × CompileState σ → Prop} (known : ∀ text, p (text, s))
    (pending : ∀ ids, (s.blocks.slot name).bodies[(s.blocks.slot name).cursor]? = some (.pending ids) →
      p (let r := concat (compile (name :: active)) ids (entered s name (s.blocks.slot name).cursor)
        (r.1, { r.2 with blocks := r.2.blocks.leave name (s.blocks.slot name).cursor (keep.body ids r.1) }))) :
    p (resolveWith keep compile active name s) := by
  cases next : (s.blocks.slot name).bodies[(s.blocks.slot name).cursor]? with
  | none =>
    rw [resolveWith_of_none next]
    exact known []
  | some body =>
    cases body with
    | compiled output =>
      rw [resolveWith_of_compiled next]
      exact known output
    | pending ids =>
      rw [resolveWith_of_pending rfl next]
      exact pending ids next

end Resolve

/-- **A body gives its text, whether it is compiled or taken as it was kept.** -/
theorem yields_resolveWith {keep : Retention} (layered : start.blocks.Layered c.tree)
    {compile : List Text → NodeId → Step σ Text} {active : List Text} {name : Text} {pending : Nat}
    (around : ∀ outer ∈ active, start.blocks.Reaches c.tree outer name)
    (inner : ∀ fewer < pending, ∀ ids, .pending ids ∈ (start.blocks.slot name).bodies →
      c.Yields start (name :: active) fewer (concat (compile (name :: active)) ids)
        (Markup.meanings (c.senseIn start (name :: active)) (ids.map c.tree.markup))) :
    c.Yields start active pending (resolveWith keep compile active name) (c.bodyText start active name) := by
  intro s holds handlers bound
  have cursor := holds.cursor name
  have level := bodyText_eq_levelText layered around
  cases next : (s.blocks.slot name).bodies[active.count name]? with
  | none =>
    have absent : (start.blocks.slot name).bodies[active.count name]? = none := by
      rwa [List.getElem?_eq_none_iff, ← holds.length, ← List.getElem?_eq_none_iff]
    rw [resolveWith_of_none (cursor ▸ next), bodyText_of_none absent]
    exact ⟨rfl, holds, handlers, Nat.le_refl _⟩
  | some body =>
    have known := holds.body name _ body (Nat.le_refl _) next
    cases body with
    | compiled output =>
      have text : output = c.bodyText start active name := by
        rcases known with same | eq
        · rw [bodyText_of_some same]
          simp [Body.markup, Markup.meanings, Markup.meaning]
        · rw [level]
          exact Body.compiled.inj eq
      rw [resolveWith_of_compiled (cursor ▸ next)]
      exact ⟨text, holds, handlers, Nat.le_refl _⟩
    | pending ids =>
      have same : (start.blocks.slot name).bodies[active.count name]? = some (.pending ids) := by
        rcases known with same | eq
        · exact same
        · cases eq
      have fewer := BlockStack.pendingCount_enter next
      obtain ⟨output, inside, handlers', le⟩ := inner (s.blocks.enter name (active.count name)).pendingCount
        (by omega) ids (List.mem_of_getElem? same) (entered s name (active.count name)) (holds_enter holds)
        handlers (Nat.le_refl _)
      rw [resolveWith_of_pending cursor next]
      have text := output.trans (bodyText_of_some same).symm
      refine ⟨text, holds_leave inside ?_, handlers', ?_⟩
      · cases keep with
        | text => exact .inr (congrArg Body.compiled (text.trans level))
        | nodes => exact .inl same
      · have more := BlockStack.pendingCount_leave_le
          (concat (compile (name :: active)) ids (entered s name (active.count name))).2.blocks name
          (active.count name) (keep.body ids (concat (compile (name :: active)) ids
            (entered s name (active.count name))).1)
        change _ ≤ (s.blocks.enter name (active.count name)).pendingCount at le
        dsimp only
        omega

/-! ## A node -/

variable {keep : Retention}

/-- The nodes of a body give their text inside of it if nodes of any body do at this depth. -/
theorem yields_concat_of_pending {depth pending fewer : Nat} {active : List Text} {name : Text}
    {ids : List NodeId}
    (node : ∀ active pending id,
      (∀ outer ∈ active, ∀ other ∈ (c.tree.markup id).names, start.blocks.Reaches c.tree outer other) →
      (∀ outer ∈ active, ∀ inner, active.head? = some inner → start.blocks.Reaches c.tree outer inner) →
      pending * (c.tree.size + 1) + (c.tree.size - id) < depth →
      c.Yields start active pending (nodeWith keep c depth active id)
        ((c.tree.markup id).meaning (c.senseIn start active)))
    (around : ∀ outer ∈ active, start.blocks.Reaches c.tree outer name)
    (less : fewer < pending) (deep : pending * (c.tree.size + 1) < depth + 1)
    (mem : .pending ids ∈ (start.blocks.slot name).bodies) :
    c.Yields start (name :: active) fewer (concat (nodeWith keep c depth (name :: active)) ids)
      (Markup.meanings (c.senseIn start (name :: active)) (ids.map c.tree.markup)) := by
  have reached : ∀ outer ∈ name :: active, start.blocks.Reaches c.tree outer name := by
    intro outer outer_mem
    rcases List.mem_cons.1 outer_mem with rfl | outer_mem
    · exact .refl
    · exact around outer outer_mem
  have room : (fewer + 1) * (c.tree.size + 1) ≤ pending * (c.tree.size + 1) := Nat.mul_le_mul_right _ less
  rw [Nat.add_mul] at room
  apply yields_concat
  intro id id_mem
  apply node
  · intro outer outer_mem other mentioned
    refine (reached outer outer_mem).tail ⟨.pending ids, mem, ?_⟩
    exact (Markup.mem_namesOf_iff ..).2 ⟨c.tree.markup id, List.mem_map_of_mem id_mem, mentioned⟩
  · intro outer outer_mem inner head
    obtain rfl : name = inner := Option.some.inj head
    exact reached outer outer_mem
  · omega

/-- **A node gives the text that its markup means there.** -/
theorem yields_nodeWith (pure : c.registry.Pure) (ordered : c.tree.Ordered)
    (layered : start.blocks.Layered c.tree) (depth : Nat) :
    ∀ active pending id,
      (∀ outer ∈ active, ∀ other ∈ (c.tree.markup id).names, start.blocks.Reaches c.tree outer other) →
      (∀ outer ∈ active, ∀ inner, active.head? = some inner → start.blocks.Reaches c.tree outer inner) →
      pending * (c.tree.size + 1) + (c.tree.size - id) < depth →
      c.Yields start active pending (nodeWith keep c depth active id)
        ((c.tree.markup id).meaning (c.senseIn start active)) := by
  induction depth with
  | zero => intro _ _ _ _ _ deep; exact absurd deep (Nat.not_lt_zero _)
  | succ depth ih =>
    intro active pending id mentioned chained deep
    have below : (∀ other, other ∈ Markup.namesOf ((c.tree.children id).map c.tree.markup) →
          ∀ outer ∈ active, start.blocks.Reaches c.tree outer other) →
        c.Yields start active pending (concat (nodeWith keep c depth active) (c.tree.children id))
          (Markup.meanings (c.senseIn start active) ((c.tree.children id).map c.tree.markup)) := by
      intro reached
      apply yields_concat
      intro child mem
      have inside := ordered id child mem
      refine ih active pending child (fun outer outer_mem other other_mem => ?_) chained (by omega)
      exact reached other ((Markup.mem_namesOf_iff ..).2
        ⟨c.tree.markup child, List.mem_map_of_mem mem, other_mem⟩) outer outer_mem
    have body : ∀ name, (∀ outer ∈ active, start.blocks.Reaches c.tree outer name) →
        c.Yields start active pending (resolveWith keep (nodeWith keep c depth) active name)
          (c.bodyText start active name) := fun name around =>
      yields_resolveWith layered around fun fewer less ids mem =>
        yields_concat_of_pending ih around less (by omega) mem
    rw [Tree.markup_eq ordered] at mentioned ⊢
    unfold nodeWith
    cases kind : c.tree.kind? id with
    | none => exact yields_return active pending []
    | some kind' =>
      rw [kind] at mentioned
      cases kind' with
      | root => exact below fun other mem outer outer_mem => mentioned outer outer_mem other mem
      | text t => exact yields_return active pending t
      | value tag attributes raw => exact yields_valueTag pure active pending id tag attributes raw
      | parentValue =>
        cases active with
        | nil => exact yields_return [] pending []
        | cons name active => exact body name fun outer mem => chained outer mem name rfl
      | block tag attributes state =>
        cases state with
        | closed =>
          exact yields_blockTag pure (below fun other mem outer outer_mem => mentioned outer outer_mem other mem)
            id tag attributes
        | opened => exact yields_return active pending []
        | abandoned => exact yields_return active pending []
      | definition name attributes state =>
        cases state with
        | closed => exact body name fun outer mem => mentioned outer mem name (List.mem_singleton_self name)
        | opened => exact yields_return active pending []
        | abandoned => exact yields_return active pending []

/-! ## A whole run -/

variable (c start) in
/-- **A run gives the text that the markup of its node means**, whichever of text or nodes is kept of a
body, when no body is being compiled at its start. -/
theorem compileWith_eq_meaning (pure : c.registry.Pure) (ordered : c.tree.Ordered)
    (layered : start.blocks.Layered c.tree) (outside : ∀ name, (start.blocks.slot name).cursor = 0) (id : NodeId) :
    (compileWith keep c id start).1 = (c.tree.markup id).meaning (c.senseIn start []) := by
  have holds : c.Holds start [] start.blocks :=
    ⟨outside, fun _ => rfl, fun _ _ _ _ found => .inl found⟩
  have deep : start.blocks.pendingCount * (c.tree.size + 1) + (c.tree.size - id) < c.depth start.blocks := by
    rw [depth, Nat.add_mul]
    omega
  exact (yields_nodeWith pure ordered layered _ [] _ id (fun _ mem => nomatch mem) (fun _ mem => nomatch mem)
    deep start holds rfl (Nat.le_refl _)).1

end Compiler

end TagTemplate
