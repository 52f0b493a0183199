/-
# Proofs.Compile.Calls -- which handlers are called, and in which order

Handlers may keep a state, so what a tag turns into depends on the calls before it.
Under a registry, a piece of markup is a computation on that state
(`Markup.perform`): text is itself, a value tag is one call, and a block performs
its content from left to right and then is one call with the text of that.

A registry that records (`Registry.recording`) writes down every call in its state
and is otherwise the same (`performAll_recording`).  The calls of a piece of markup
are its tags in the order in which they end, each of them once, as far as there is a
handler (`calls_of_performAll`).

A tree says some markup where its nodes are settled (`Tree.Says`): a settled node is
no root and not open any more.  Compiling such nodes performs the markup
(`performs_of_says`).  No definition and no `parent` tag is among them, so the block
stack has no part in it.
-/
import TagTemplate.Compile
import TagTemplate.Proofs.Compile.Markup

namespace TagTemplate

set_option autoImplicit false

variable {σ : Type}

/-! ## Calls -/

/-- Which of the two kinds of tags a handler is called for. -/
inductive CallKind where
  | block
  | value
  deriving DecidableEq, Repr

/-- The tag that a handler is called for. -/
structure CallSite where
  kind : CallKind
  tag : Text
  attributes : Attributes
  deriving DecidableEq, Repr

/-- A call of a handler, with the content of the block or the raw text of the value. -/
structure Call extends CallSite where
  text : Text
  deriving DecidableEq, Repr

namespace Registry

/-- What a value tag is turned into; without a handler it is nothing. -/
def valueText (r : Registry σ) (tag : Text) (attributes : Attributes) (raw : Text) : StateM σ Text :=
  match r.valueHandler? tag with
  | some h => h attributes raw
  | none => return []

/-- What a block tag is turned into; without a handler it is nothing. -/
def blockText (r : Registry σ) (tag : Text) (attributes : Attributes) (content : Text) : StateM σ Text :=
  match r.blockHandler? tag with
  | some h => h attributes content
  | none => return []

def answers (r : Registry σ) (site : CallSite) : Bool :=
  match site.kind with
  | .block => (r.blockHandler? site.tag).isSome
  | .value => (r.valueHandler? site.tag).isSome

def recorded (kind : CallKind) (tag : Text) (h : Handler σ) : Handler (σ × List Call) :=
  fun attributes text s =>
    let r := h attributes text s.1
    (r.1, r.2, s.2 ++ [⟨⟨kind, tag, attributes⟩, text⟩])

def recording (r : Registry σ) : Registry (σ × List Call) where
  blocks := r.blocks.map fun p => (p.1, recorded .block p.1 p.2)
  values := r.values.map fun p => (p.1, recorded .value p.1 p.2)
  unknownBlock := r.unknownBlock.map fun f tag => recorded .block tag (f tag)
  unknownValue := r.unknownValue.map fun f tag => recorded .value tag (f tag)

theorem find?_recorded (kind : CallKind) (tag : Text) (hs : List (Text × Handler σ)) :
    find? tag (hs.map fun p => (p.1, recorded kind p.1 p.2)) = (find? tag hs).map (recorded kind tag) := by
  unfold find?
  induction hs with
  | nil => rfl
  | cons p hs ih =>
    by_cases same : p.1 = tag
    · simp [same]
    · simpa [same] using ih

theorem blockHandler?_recording (r : Registry σ) (tag : Text) :
    r.recording.blockHandler? tag = (r.blockHandler? tag).map (recorded .block tag) := by
  rw [blockHandler?, recording, find?_recorded, blockHandler?]
  cases find? tag r.blocks <;> cases r.unknownBlock <;> rfl

theorem valueHandler?_recording (r : Registry σ) (tag : Text) :
    r.recording.valueHandler? tag = (r.valueHandler? tag).map (recorded .value tag) := by
  rw [valueHandler?, recording, find?_recorded, valueHandler?]
  cases find? tag r.values <;> cases r.unknownValue <;> rfl

end Registry

/-! ## Markup under stateful handlers -/

namespace Markup

mutual

/-- The text of a piece of markup, with the calls that make it.  There is no body around it and no
block stack beside it. -/
def perform (r : Registry σ) : Markup → StateM σ Text
  | .text t => return t
  | .value tag attributes raw => r.valueText tag attributes raw
  | .block tag attributes content => do r.blockText tag attributes (← performAll r content)
  | .group content => performAll r content
  | .parent => return []
  | .definition _ => return []

def performAll (r : Registry σ) : List Markup → StateM σ Text
  | [] => return []
  | m :: ms => do
    let text ← perform r m
    let rest ← performAll r ms
    return text ++ rest

end

mutual

/-- The tags of a piece of markup in the order in which they end: a block comes after its content. -/
def sites : Markup → List CallSite
  | .text _ | .parent | .definition _ => []
  | .value tag attributes _ => [⟨.value, tag, attributes⟩]
  | .block tag attributes content => sitesOf content ++ [⟨.block, tag, attributes⟩]
  | .group content => sitesOf content

/-- The tags of some pieces in the order in which they end. -/
def sitesOf : List Markup → List CallSite
  | [] => []
  | m :: ms => sites m ++ sitesOf ms

end

def traced (r : Registry σ) (ms : List Markup) (state : σ) : Text × σ × List Call :=
  (performAll r.recording ms).run (state, [])

/-! ## Recording changes nothing -/

theorem valueText_recording (r : Registry σ) (tag : Text) (attributes : Attributes) (raw : Text) (state : σ)
    (calls : List Call) :
    ∃ more, (r.recording.valueText tag attributes raw) (state, calls) =
        ((r.valueText tag attributes raw state).1, (r.valueText tag attributes raw state).2, calls ++ more) ∧
      more.map Call.toCallSite = [CallSite.mk .value tag attributes].filter r.answers := by
  unfold Registry.valueText
  rw [Registry.valueHandler?_recording]
  cases found : r.valueHandler? tag with
  | none => exact ⟨[], by rw [List.append_nil]; rfl, by simp [Registry.answers, found]⟩
  | some h => exact ⟨_, rfl, by simp [Registry.answers, found]⟩

theorem blockText_recording (r : Registry σ) (tag : Text) (attributes : Attributes) (content : Text) (state : σ)
    (calls : List Call) :
    ∃ more, (r.recording.blockText tag attributes content) (state, calls) =
        ((r.blockText tag attributes content state).1, (r.blockText tag attributes content state).2, calls ++ more) ∧
      more.map Call.toCallSite = [CallSite.mk .block tag attributes].filter r.answers := by
  unfold Registry.blockText
  rw [Registry.blockHandler?_recording]
  cases found : r.blockHandler? tag with
  | none => exact ⟨[], by rw [List.append_nil]; rfl, by simp [Registry.answers, found]⟩
  | some h => exact ⟨_, rfl, by simp [Registry.answers, found]⟩

mutual

theorem perform_recording (r : Registry σ) (m : Markup) (state : σ) (calls : List Call) :
    ∃ more, perform r.recording m (state, calls) = ((perform r m state).1, (perform r m state).2, calls ++ more) ∧
      more.map Call.toCallSite = m.sites.filter r.answers := by
  cases m with
  | text t => exact ⟨[], by rw [List.append_nil]; rfl, rfl⟩
  | parent => exact ⟨[], by rw [List.append_nil]; rfl, rfl⟩
  | definition name => exact ⟨[], by rw [List.append_nil]; rfl, rfl⟩
  | value tag attributes raw => exact valueText_recording r tag attributes raw state calls
  | group content => exact performAll_recording r content state calls
  | block tag attributes content =>
    obtain ⟨inner, eq, sites_inner⟩ := performAll_recording r content state calls
    obtain ⟨last, eq', sites_last⟩ := blockText_recording r tag attributes (performAll r content state).1
      (performAll r content state).2 (calls ++ inner)
    refine ⟨inner ++ last, ?_, ?_⟩
    · show (r.recording.blockText tag attributes (performAll r.recording content (state, calls)).1)
        (performAll r.recording content (state, calls)).2 = _
      rw [eq, ← List.append_assoc]
      exact eq'
    · rw [List.map_append, sites_inner, sites_last, sites, List.filter_append]

theorem performAll_recording (r : Registry σ) (ms : List Markup) (state : σ) (calls : List Call) :
    ∃ more, performAll r.recording ms (state, calls) =
        ((performAll r ms state).1, (performAll r ms state).2, calls ++ more) ∧
      more.map Call.toCallSite = (sitesOf ms).filter r.answers := by
  cases ms with
  | nil => exact ⟨[], by rw [List.append_nil]; rfl, rfl⟩
  | cons m ms =>
    obtain ⟨first, eq, sites_first⟩ := perform_recording r m state calls
    obtain ⟨rest, eq', sites_rest⟩ := performAll_recording r ms (perform r m state).2 (calls ++ first)
    refine ⟨first ++ rest, ?_, ?_⟩
    · show ((perform r.recording m (state, calls)).1
          ++ (performAll r.recording ms (perform r.recording m (state, calls)).2).1,
        (performAll r.recording ms (perform r.recording m (state, calls)).2).2) = _
      rw [eq]
      dsimp only
      rw [eq', ← List.append_assoc]
      rfl
    · rw [List.map_append, sites_first, sites_rest, sitesOf, List.filter_append]

end

/-- **Every tag that has a handler is called once, after the tags in its content.** -/
theorem calls_of_performAll (r : Registry σ) (ms : List Markup) (state : σ) :
    (traced r ms state).2.2.map Call.toCallSite = (sitesOf ms).filter r.answers := by
  obtain ⟨more, eq, sites⟩ := performAll_recording r ms state []
  have calls : (traced r ms state).2.2 = more := by
    rw [traced, StateT.run, eq]
    rfl
  rw [calls, sites]

end Markup

/-! ## Trees whose nodes are settled -/

/-- What some settled nodes of a tree say: closed blocks, texts and value tags.  A block that was given
up says nothing. -/
inductive Tree.Says (t : Tree) : List NodeId → List Markup → Prop where
  | nil : Says t [] []
  | text {id : NodeId} {ids : List NodeId} {x : Text} {ms : List Markup} (kind : t.kind? id = some (.text x))
      (rest : Says t ids ms) : Says t (id :: ids) (.text x :: ms)
  | value {id : NodeId} {ids : List NodeId} {tag raw : Text} {attributes : Attributes} {ms : List Markup}
      (kind : t.kind? id = some (.value tag attributes raw)) (rest : Says t ids ms) :
      Says t (id :: ids) (.value tag attributes raw :: ms)
  | block {id : Nat} {ids : List NodeId} {tag : Text} {attributes : Attributes} {content ms : List Markup}
      (kind : t.kind? id = some (.block tag attributes .closed))
      (inside : ∀ child : Nat, child ∈ t.children id → id < child ∧ child < t.size)
      (inner : Says t (t.children id) content) (rest : Says t ids ms) :
      Says t (id :: ids) (.block tag attributes content :: ms)
  | abandoned {id : NodeId} {ids : List NodeId} {tag : Text} {attributes : Attributes} {ms : List Markup}
      (kind : t.kind? id = some (.block tag attributes .abandoned)) (rest : Says t ids ms) : Says t (id :: ids) ms

theorem Tree.Says.append {t : Tree} {ids ids' : List NodeId} {ms ms' : List Markup} (first : t.Says ids ms)
    (second : t.Says ids' ms') : t.Says (ids ++ ids') (ms ++ ms') := by
  induction first with
  | nil => exact second
  | text kind _ ih => exact .text kind ih
  | value kind _ ih => exact .value kind ih
  | block kind inside inner _ _ ih => exact .block kind inside inner ih
  | abandoned kind _ ih => exact .abandoned kind ih

namespace Compiler

/-- A step gives the text of a computation on the state of the handlers, and does to that state what
the computation does. -/
def Performs (step : Step σ Text) (computation : StateM σ Text) : Prop :=
  ∀ s, (step s).1 = (computation s.handlers).1 ∧ (step s).2.handlers = (computation s.handlers).2

theorem performs_return (text : Text) : Performs (σ := σ) (pure text) (pure text) := fun _ => ⟨rfl, rfl⟩

theorem performs_dispatch (id : NodeId) (h : Option (StateM σ Text)) (missing : Event) :
    Performs (dispatch id h missing) (h.getD (pure [])) := by
  intro s
  cases h <;> exact ⟨rfl, rfl⟩

theorem performs_valueTag (r : Registry σ) (id : NodeId) (tag : Text) (attributes : Attributes) (raw : Text) :
    Performs (dispatch id ((r.valueHandler? tag).map fun h => h attributes raw) (.noValueHandler tag))
      (r.valueText tag attributes raw) := by
  have performs := performs_dispatch id ((r.valueHandler? tag).map fun h => h attributes raw) (.noValueHandler tag)
  unfold Registry.valueText
  cases found : r.valueHandler? tag <;> simpa [found] using performs

theorem performs_blockTag (r : Registry σ) (id : NodeId) (tag : Text) (attributes : Attributes) (content : Text) :
    Performs (dispatch id ((r.blockHandler? tag).map fun h => h attributes content) (.noBlockHandler tag))
      (r.blockText tag attributes content) := by
  have performs := performs_dispatch id ((r.blockHandler? tag).map fun h => h attributes content) (.noBlockHandler tag)
  unfold Registry.blockText
  cases found : r.blockHandler? tag <;> simpa [found] using performs

theorem performs_bind {first : Step σ Text} {first' : StateM σ Text} {next : Text → Step σ Text}
    {next' : Text → StateM σ Text} (performs : Performs first first')
    (performs' : ∀ text, Performs (next text) (next' text)) : Performs (first >>= next) (first' >>= next') := by
  intro s
  obtain ⟨text, handlers⟩ := performs s
  obtain ⟨text', handlers'⟩ := performs' (first s).1 (first s).2
  rw [handlers] at text' handlers'
  constructor
  · refine text'.trans ?_
    rw [text]
    rfl
  · refine handlers'.trans ?_
    rw [text]
    rfl

/-- A step followed by the rest of a list. -/
theorem performs_cons {compile : NodeId → Step σ Text} {r : Registry σ} {id : NodeId} {ids : List NodeId}
    {m : Markup} {ms : List Markup} (first : Performs (compile id) (m.perform r))
    (rest : Performs (concat compile ids) (Markup.performAll r ms)) :
    Performs (concat compile (id :: ids)) (Markup.performAll r (m :: ms)) :=
  performs_bind first fun text => performs_bind rest fun more => performs_return (text ++ more)

/-- A step that says nothing, followed by the rest of a list. -/
theorem performs_skip {compile : NodeId → Step σ Text} {id : NodeId} {ids : List NodeId}
    {computation : StateM σ Text} (first : compile id = pure [])
    (rest : Performs (concat compile ids) computation) : Performs (concat compile (id :: ids)) computation := by
  intro s
  have same : concat compile (id :: ids) s = concat compile ids s := by
    show (concat compile (id :: ids)).run s = _
    simp [concat, first]
    rfl
  rw [same]
  exact rest s

/-- **Compiling settled nodes performs what they say.** -/
theorem performs_of_says {keep : Retention} {c : Compiler σ} (active : List Text) {ids : List NodeId}
    {ms : List Markup} (said : c.tree.Says ids ms) (depth : Nat) (deep : ∀ id ∈ ids, c.tree.size - id < depth) :
    Performs (concat (nodeWith keep c depth active) ids) (Markup.performAll c.registry ms) := by
  have split {id : NodeId} {ids : List NodeId} {depth : Nat} (deep : ∀ i ∈ id :: ids, c.tree.size - i < depth) :
      (∃ less, depth = less + 1) ∧ ∀ i ∈ ids, c.tree.size - i < depth :=
    ⟨Nat.exists_eq_succ_of_ne_zero fun zero => Nat.not_lt_zero _ (zero ▸ deep id (List.mem_cons_self ..)),
      fun i mem => deep i (List.mem_cons_of_mem _ mem)⟩
  induction said generalizing depth with
  | nil => exact performs_return []
  | @text id _ x _ kind _ ih =>
    obtain ⟨⟨less, rfl⟩, rest⟩ := split deep
    refine performs_cons ?_ (ih _ rest)
    unfold nodeWith
    rw [kind]
    exact performs_return x
  | @value id _ tag raw attributes _ kind _ ih =>
    obtain ⟨⟨less, rfl⟩, rest⟩ := split deep
    refine performs_cons ?_ (ih _ rest)
    unfold nodeWith
    rw [kind]
    exact performs_valueTag c.registry id tag attributes raw
  | @block id _ tag attributes _ _ kind inside _ _ ih_inner ih =>
    obtain ⟨⟨less, rfl⟩, rest⟩ := split deep
    refine performs_cons ?_ (ih _ rest)
    have here := deep id (List.mem_cons_self ..)
    unfold nodeWith
    rw [kind]
    refine performs_bind (ih_inner less fun child mem => ?_) fun content =>
      performs_blockTag c.registry id tag attributes content
    have := inside child mem
    omega
  | abandoned kind _ ih =>
    obtain ⟨⟨less, rfl⟩, rest⟩ := split deep
    refine performs_skip ?_ (ih _ rest)
    unfold nodeWith
    rw [kind]

end Compiler

end TagTemplate
