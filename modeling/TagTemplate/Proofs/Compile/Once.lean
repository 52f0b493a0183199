/-
# Proofs.Compile.Once -- no tag is dispatched twice

A run of the compiler comes to the nodes below the one it is asked for, and to those of
the bodies that it takes.  A body that was taken is its text afterwards, so its nodes
cannot be come to again: what a run dispatches comes out of what is below its node and
below the bodies that are still pending, and is gone from there (`Spends`).

In the arena of a chain each node is below one of these only, and once
(`Tree.Filed.nodup_subtrees`).  So however the files of a chain are nested, whatever
names they define and wherever they ask for the body above, every tag is dispatched
at most once, and its handler is called at most once (`compile_calls_once`).  Handlers
that write down their calls say so themselves.
-/
import TagTemplate.Proofs.Compile.Ignored
import TagTemplate.Proofs.Compile.Recording
import TagTemplate.Proofs.Engine
import TagTemplate.Proofs.Tree.Subtree

namespace TagTemplate

set_option autoImplicit false

/-! ## Bodies that are spent -/

namespace BlockStack

/-- One body of all bodies, apart from the others: they stay when something else is put in its place. -/
theorem exists_others {s : BlockStack} {name : Text} {position : Nat} {body : Body}
    (here : (s.slot name).bodies[position]? = some body) :
    ∃ others : List Body, s.bodies.Perm (body :: others) ∧ ∀ (move : Nat → Nat) (other : Body),
      (s.modify name fun slot => ⟨move slot.cursor, slot.bodies.set position other⟩).bodies.Perm (other :: others) := by
  obtain ⟨slots⟩ := s
  simp only [bodies, modify]
  induction slots with
  | nil => cases here
  | cons p slots ih =>
    by_cases same : p.1 = name
    · have slot : slot ⟨p :: slots⟩ name = p.2 := by simp [slot, same]
      rw [slot] at here
      obtain ⟨inside, eq⟩ := List.getElem?_eq_some_iff.1 here
      refine ⟨p.2.bodies.take position ++ p.2.bodies.drop (position + 1) ++ slots.flatMap fun p => p.2.bodies, ?_, ?_⟩
      · rw [List.flatMap_cons, List.append_assoc]
        conv => lhs; rw [← List.take_append_drop position p.2.bodies, List.drop_eq_getElem_cons inside, eq]
        rw [List.append_assoc]
        exact List.perm_middle
      · intro move other
        rw [modifySlot, if_pos same, List.flatMap_cons, List.set_eq_take_append_cons_drop, if_pos inside]
        rw [List.append_assoc, List.append_assoc]
        exact List.perm_middle
    · have slot : slot ⟨p :: slots⟩ name = BlockStack.slot ⟨slots⟩ name := by simp [slot, same]
      rw [slot] at here
      obtain ⟨others, was, becomes⟩ := ih here
      refine ⟨p.2.bodies ++ others, ?_, fun move other => ?_⟩
      · rw [List.flatMap_cons]
        exact (was.append_left _).trans List.perm_middle
      · rw [modifySlot, if_neg same, List.flatMap_cons]
        exact ((becomes move other).append_left _).trans List.perm_middle

end BlockStack

namespace Tree

/-- What lies below the nodes of the bodies that are still pending. -/
def loose (t : Tree) (s : BlockStack) : List NodeId := (s.bodies.flatMap Body.nodes).flatMap t.subtree

variable {t : Tree} {s : BlockStack} {name : Text} {position : Nat}

theorem count_loose {body : Body} {others : List Body} (perm : s.bodies.Perm (body :: others)) (i : NodeId) :
    (t.loose s).count i
      = (body.nodes.flatMap t.subtree).count i + ((others.flatMap Body.nodes).flatMap t.subtree).count i := by
  have all := (perm.flatMap_right Body.nodes).flatMap_right t.subtree
  rw [List.flatMap_cons, List.flatMap_append] at all
  rw [loose, all.count_eq, List.count_append]

/-- The nodes of a body are no longer loose once it is entered. -/
theorem count_loose_enter {ids : List NodeId} (next : (s.slot name).bodies[position]? = some (.pending ids)) (i : NodeId) :
    (t.loose s).count i = (ids.flatMap t.subtree).count i + (t.loose (s.enter name position)).count i := by
  obtain ⟨others, was, becomes⟩ := BlockStack.exists_others next
  have entered : (s.enter name position).bodies.Perm (.compiled [] :: others) := becomes (· + 1) (.compiled [])
  rw [count_loose was, count_loose entered]
  exact congrArg _ (Nat.zero_add _).symm

/-- A text that is kept in the place of a body has no nodes. -/
theorem count_loose_leave_le (there : position < (s.slot name).bodies.length) (output : Text) (i : NodeId) :
    (t.loose (s.leave name position (.compiled output))).count i ≤ (t.loose s).count i := by
  obtain ⟨others, was, becomes⟩ := BlockStack.exists_others (List.getElem?_eq_getElem there)
  have left : (s.leave name position (.compiled output)).bodies.Perm (.compiled output :: others) :=
    becomes (· - 1) (.compiled output)
  rw [count_loose was, count_loose left]
  exact Nat.add_le_add_right (Nat.zero_le _) _

end Tree

namespace Compiler

variable {σ : Type}

/-! ## Runs spend nodes -/

/-- A step dispatches what is among some nodes or loose before it and not loose any more after it, no node more
often than that. -/
def Spends (t : Tree) (ids : List NodeId) (step : Step σ Text) : Prop :=
  ∀ s, ∃ new, (step s).2.dispatched = s.dispatched ++ new ∧
    ∀ i, new.count i + (t.loose (step s).2.blocks).count i ≤ ids.count i + (t.loose s.blocks).count i

variable {t : Tree} {ids : List NodeId}

theorem spends_return (ids : List NodeId) (text : Text) : Spends (σ := σ) t ids (pure text) :=
  fun _ => ⟨[], (List.append_nil _).symm, fun _ => Nat.add_le_add_right (Nat.zero_le _) _⟩

theorem Spends.bind {ids' : List NodeId} {first : Step σ Text} {next : Text → Step σ Text} (one : Spends t ids first)
    (two : ∀ text, Spends t ids' (next text)) : Spends t (ids ++ ids') (first >>= next) := by
  intro s
  obtain ⟨new, dispatched, fewer⟩ := one s
  obtain ⟨new', dispatched', fewer'⟩ := two (first s).1 (first s).2
  refine ⟨new ++ new', ?_, fun i => ?_⟩
  · show (next (first s).1 (first s).2).2.dispatched = _
    rw [dispatched', dispatched, List.append_assoc]
  · show _ + (t.loose (next (first s).1 (first s).2).2.blocks).count i ≤ _
    have := fewer i
    have := fewer' i
    rw [List.count_append, List.count_append]
    omega

/-- More nodes than are needed. -/
theorem Spends.mono {ids' : List NodeId} {step : Step σ Text} (spends : Spends t ids step) (sub : ids.Sublist ids') :
    Spends t ids' step := by
  intro s
  obtain ⟨new, dispatched, fewer⟩ := spends s
  exact ⟨new, dispatched, fun i => Nat.le_trans (fewer i) (Nat.add_le_add_right (sub.count_le i) _)⟩

theorem spends_dispatch (id : NodeId) (h : Option (StateM σ Text)) (missing : Event) :
    Spends t [id] (dispatch id h missing) := by
  intro s
  cases h <;> exact ⟨[id], rfl, fun _ => Nat.le_refl _⟩

theorem spends_concat {compile : NodeId → Step σ Text} (each : ∀ id, Spends t (t.subtree id) (compile id))
    (ids : List NodeId) : Spends t (ids.flatMap t.subtree) (concat compile ids) := by
  induction ids with
  | nil => exact spends_return [] []
  | cons id ids ih =>
    rw [List.flatMap_cons, concat]
    refine (each id).bind fun text => ?_
    have rest := ih.bind fun rest => spends_return [] (text ++ rest)
    rwa [List.append_nil] at rest

/-- **A body is spent when it is taken**: from then on its nodes are not loose. -/
theorem spends_resolveWith {compile : List Text → NodeId → Step σ Text}
    (each : ∀ active id, Spends t (t.subtree id) (compile active id))
    (advancing : ∀ active ids, Advancing (concat (compile active) ids)) (active : List Text) (name : Text) :
    Spends t [] (resolveWith .text compile active name) := by
  intro s
  apply resolveWith_cases (p := fun r => ∃ new, r.2.dispatched = s.dispatched ++ new ∧
    ∀ i, new.count i + (t.loose r.2.blocks).count i ≤ ([] : List NodeId).count i + (t.loose s.blocks).count i)
    .text compile active name s (fun text => spends_return [] text s)
  intro ids next
  obtain ⟨new, dispatched, fewer⟩ :=
    spends_concat (each (name :: active)) ids (entered s name (s.blocks.slot name).cursor)
  have inside := advancing (name :: active) ids (entered s name (s.blocks.slot name).cursor)
  have there := Nat.lt_of_lt_of_eq (List.getElem?_eq_some_iff.1 next).1 inside.length_inside.symm
  refine ⟨new, dispatched, fun i => ?_⟩
  have enter : (t.loose s.blocks).count i = _ := Tree.count_loose_enter next i
  have leave := Tree.count_loose_leave_le (t := t) there
    (concat (compile (name :: active)) ids (entered s name (s.blocks.slot name).cursor)).1 i
  have inner := fewer i
  simp only [entered, Retention.body, List.count_nil] at enter leave inner ⊢
  omega

/-- **What a run at a node dispatches** is below that node or below pending bodies. -/
theorem spends_nodeWith (c : Compiler σ) (ordered : c.tree.Ordered) (depth : Nat) :
    ∀ active id, Spends c.tree (c.tree.subtree id) (nodeWith .text c depth active id) := by
  induction depth with
  | zero => exact fun _ _ => spends_return _ []
  | succ depth ih =>
    intro active id
    have here : [id].Sublist (c.tree.subtree id) := by
      rw [Tree.subtree_eq ordered]
      exact (List.nil_sublist _).cons_cons id
    have below : Spends c.tree ((c.tree.children id).flatMap c.tree.subtree)
        (concat (nodeWith .text c depth active) (c.tree.children id)) := spends_concat (ih active) _
    have body : ∀ active name, Spends c.tree [] (resolveWith .text (nodeWith .text c depth) active name) :=
      spends_resolveWith ih (advancing_concat .text c depth)
    unfold nodeWith
    cases kind : c.tree.kind? id with
    | none => exact spends_return _ []
    | some k =>
      cases k with
      | root =>
        rw [Tree.subtree_eq ordered]
        exact below.mono (List.sublist_cons_self ..)
      | text t => exact spends_return _ t
      | value tag attributes raw => exact (spends_dispatch id _ _).mono here
      | parentValue =>
        cases active with
        | nil => exact spends_return _ []
        | cons name active => exact (body (name :: active) name).mono (List.nil_sublist _)
      | block tag attributes state =>
        cases state with
        | closed =>
          have tagged := below.bind fun content => spends_dispatch id
            ((c.registry.blockHandler? tag).map fun h => h attributes content) (.noBlockHandler tag)
          intro s
          obtain ⟨new, dispatched, fewer⟩ := tagged s
          refine ⟨new, dispatched, fun i => ?_⟩
          -- The tag comes after its content, but stands before it.
          have order := (List.perm_append_singleton id ((c.tree.children id).flatMap c.tree.subtree)).count_eq i
          rw [Tree.subtree_eq ordered, ← order]
          exact fewer i
        | opened => exact spends_return _ []
        | abandoned => exact spends_return _ []
      | definition name attributes state =>
        cases state with
        | closed => exact (body active name).mono (List.nil_sublist _)
        | opened => exact spends_return _ []
        | abandoned => exact spends_return _ []

end Compiler

/-! ## Chains -/

variable {σ : Type}

def Tree.tagged (t : Tree) : List NodeId := (List.range t.size).filter fun id => (t.site? id).isSome

theorem Tree.mem_tagged_of_site? {t : Tree} {id : NodeId} (tagged : (t.site? id).isSome) : id ∈ t.tagged := by
  refine List.mem_filter.2 ⟨List.mem_range.2 (Nat.lt_of_not_le fun le => ?_), tagged⟩
  rw [Tree.site?, Tree.kind?_of_size_le le] at tagged
  cases tagged

namespace Chain

/-- The arena and the block stack of a chain keep account of the definitions that closed. -/
theorem filed_of_follows {settings : Settings} {fs : FileSystem} {c chain : Chain} {origin : Option Template}
    {source : Text} {further : List Location} (follows : Follows settings fs c origin source further chain) :
    ∀ {closings empty : List NodeId}, c.tree.Filed c.blocks closings empty →
      ∃ closings empty, chain.tree.Filed chain.blocks closings empty := by
  induction follows with
  | last _ => exact fun filed => ⟨_, _, filed.addFile (Token.tokenize _, _)⟩
  | next _ _ _ _ _ ih => exact fun filed => ih (filed.addFile (Token.tokenize _, _))

/-- **No tag of a chain is dispatched twice.** -/
theorem nodup_dispatched {settings : Settings} {fs : FileSystem} {origin : Option Template} {source : Text}
    {log : List Event} {chain : Chain} (built : ((ofSource settings fs origin source).run log).1 = .ok chain)
    (registry : Registry σ) (handlers : σ) : (chain.dispatched registry handlers).Nodup := by
  obtain ⟨_, follows⟩ := ofSource_eq_ok_iff.1 built
  obtain ⟨closings, empty, filed⟩ := filed_of_follows follows Tree.filed_empty
  have once := filed.nodup_subtrees (parent?_root_of_follows follows gathered_empty)
  have ordered : (Compiler.mk chain.tree registry).tree.Ordered := filed.gathered.ordered
  obtain ⟨new, dispatched, fewer⟩ :=
    Compiler.spends_nodeWith ⟨chain.tree, registry⟩ ordered
      (Compiler.depth ⟨chain.tree, registry⟩ chain.blocks) [] chain.root (chain.initial handlers)
  have eq : chain.dispatched registry handlers = new := by
    show (Compiler.compile ⟨chain.tree, registry⟩ chain.root (chain.initial handlers)).2.dispatched = new
    rw [Compiler.compile_eq]
    exact dispatched
  rw [eq]
  refine List.nodup_iff_count_le_one.2 fun i => ?_
  have once_i := List.nodup_iff_count_le_one.1 once i
  have fewer_i := fewer i
  rw [List.flatMap_cons, List.count_append] at once_i
  exact Nat.le_trans (Nat.le_trans (Nat.le_add_right _ _) fewer_i) once_i

/-- The calls that are made while a chain is compiled, and the nodes whose tags they are made for. -/
structure CalledOnce (chain : Chain) (registry : Registry σ) (ids : List NodeId) (calls : List Call) : Prop where
  /-- No node comes twice. -/
  once : ids.Nodup
  /-- They are values and blocks. -/
  tagged : ∀ id ∈ ids, (chain.tree.site? id).isSome
  /-- For each of them, in order, there is one call of its handler or fallback, if there is one. -/
  made : calls.map Call.toCallSite = (ids.filterMap chain.tree.site?).filter registry.answers

/-- There are not more calls than values and blocks. -/
theorem CalledOnce.few {chain : Chain} {registry : Registry σ} {ids : List NodeId} {calls : List Call}
    (called : chain.CalledOnce registry ids calls) : calls.length ≤ chain.tree.tagged.length :=
  calc calls.length = (calls.map Call.toCallSite).length := (List.length_map _).symm
    _ = ((ids.filterMap chain.tree.site?).filter registry.answers).length := by rw [called.made]
    _ ≤ (ids.filterMap chain.tree.site?).length := List.length_filter_le ..
    _ ≤ ids.length := List.length_filterMap_le ..
    _ ≤ chain.tree.tagged.length :=
      (called.once.subperm fun id mem => Tree.mem_tagged_of_site? (called.tagged id mem)).length_le

end Chain

/-! ## Engines -/

def Engine.recording (e : Engine σ) : Engine (σ × List Call) where
  registry := e.registry.recording
  settings := e.settings
  cache := e.cache
  useCache := e.useCache

def Session.recorded (s : Session σ) (calls : List Call) : Session (σ × List Call) where
  files := s.files
  handlers := (s.handlers, calls)
  events := s.events

namespace Engine

/-- Compile a source and its chain; `origin` is the file it is in, unless it is text in memory. -/
def compileFrom (e : Engine σ) (origin : Option Template) (source : Text) : Action σ Compilation := do
  e.compileChain (← Action.ofLogged fun fs => Chain.ofSource e.settings fs origin source)

theorem compileSource_eq (e : Engine σ) (source : Text) : e.compileSource source = e.compileFrom none source := rfl

theorem run_compileTemplate_eq (e : Engine σ) (t : Template) (s : Session σ) :
    (e.compileTemplate t).run s =
      match s.files.readAt t.file with
      | .ok source => (e.compileFrom (some t) source).run s
      | .error err => (.error (.io err), s) := by
  unfold compileTemplate compileFrom
  rw [run_bind, run_ofLogged]
  cases read : s.files.readAt t.file with
  | error err =>
    have failed : (Chain.ofTemplate e.settings s.files t).run [] = (.error (.io err), []) := by
      simp only [Chain.ofTemplate, run_bind, Logged.ofFile, read]
      rfl
    simp only [failed, List.append_nil]
  | ok source =>
    have same : (Chain.ofTemplate e.settings s.files t).run [] = (Chain.ofSource e.settings s.files (some t) source).run [] := by
      simp only [Chain.ofTemplate, run_bind, Logged.ofFile, read]
      rfl
    rw [same]
    dsimp only
    rw [run_bind, run_ofLogged]

/-- **Every tag is called at most once.** -/
theorem compile_calls_once (e : Engine σ) (origin : Option Template) (source : Text) (s : Session σ) :
    ∃ calls, (e.recording.compileFrom origin source).run (s.recorded []) =
        (((e.compileFrom origin source).run s).1, ((e.compileFrom origin source).run s).2.recorded calls) ∧
      match ((Chain.ofSource e.settings s.files origin source).run []).1 with
      | .error _ => calls = []
      | .ok chain => chain.CalledOnce e.registry (chain.dispatched e.registry s.handlers) calls ∧
          calls.length ≤ chain.tree.tagged.length := by
  unfold compileFrom
  rw [run_bind, run_bind, run_ofLogged, run_ofLogged]
  cases built : ((Chain.ofSource e.settings s.files origin source).run []).1 with
  | error err =>
    refine ⟨[], ?_, rfl⟩
    simp only [recording, Session.recorded, built]
  | ok chain =>
    obtain ⟨calls, eq, recorded⟩ :=
      Compiler.records_compile ⟨chain.tree, e.registry⟩ chain.root (chain.initial s.handlers) rfl
    have same : Compiler.compile ⟨chain.tree, e.registry.recording⟩ chain.root (chain.initial (s.handlers, [])) = _ := eq
    have called : chain.CalledOnce e.registry (chain.dispatched e.registry s.handlers) calls :=
      ⟨chain.nodup_dispatched built e.registry s.handlers, recorded.tagged, recorded.calls⟩
    refine ⟨calls, ?_, called, called.few⟩
    simp only [recording, Session.recorded, built, Chain.run_compileChain, same]
    rfl

end Engine

end TagTemplate
