/-
# Proofs.Tree.Locality -- building a file is local

A file is built behind the nodes that are already there as it is built on its own
(`Builder.Behind`).  The same goes for the block stack, which `Behind` says nothing
about: a body is filed only when a definition closes, behind the bodies its name has, and
its nodes are those it has on its own, moved up with the arena (`BlockStack.Piled`).  No
slot is read, so it makes no difference what is in them.

Together: a build leaves every earlier node and every earlier body as it was, and what
it adds is what it adds to an empty arena and an empty stack (`build_is_local`).  The
diagnostics of a chain are therefore those of its files, one file after the other.
-/
import TagTemplate.Proofs.BlockStack
import TagTemplate.Proofs.Chain.Outcome

namespace TagTemplate

set_option autoImplicit false

/-- A body whose arena comes behind `n` other nodes. -/
def Body.shift (n : Nat) : Body → Body
  | .pending nodes => .pending (nodes.map (· + n))
  | .compiled output => .compiled output

/-! ## One block stack behind another -/

namespace BlockStack

/-- The stack `both` is `earlier` with the bodies of `alone` behind its own; their nodes come behind `n` others. -/
def Piled (n : Nat) (earlier alone both : BlockStack) : Prop :=
  ∀ name, both.slot name =
    ⟨(earlier.slot name).cursor, (earlier.slot name).bodies ++ (alone.slot name).bodies.map (Body.shift n)⟩

theorem piled_empty (n : Nat) (earlier : BlockStack) : Piled n earlier {} earlier := by
  intro name
  show earlier.slot name = ⟨_, (earlier.slot name).bodies ++ []⟩
  rw [List.append_nil]

theorem Piled.push {n : Nat} {earlier alone both : BlockStack} (piled : Piled n earlier alone both) (name : Text)
    (nodes : List NodeId) : Piled n earlier (alone.push name nodes) (both.push name (nodes.map (· + n))) := by
  intro other
  by_cases same : other = name
  · subst same
    simp [BlockStack.push, piled other, Body.shift]
  · unfold BlockStack.push
    rw [slot_modify_ne _ _ same, slot_modify_ne _ _ same]
    exact piled other

end BlockStack

/-! ## A file behind others -/

namespace Builder

variable {t : Tree} {earlier : BlockStack} {alone b : Builder}

/-- A file that is built behind an arena and a block stack, next to the same file built on its own. -/
structure Joined (t : Tree) (earlier : BlockStack) (alone b : Builder) : Prop extends Behind t alone b where
  piled : BlockStack.Piled t.size earlier alone.blocks b.blocks

theorem joined_start (source : Text) (t : Tree) (earlier : BlockStack) :
    Joined t earlier (start source {} {}) (start source t earlier) :=
  ⟨behind_start source t earlier, BlockStack.piled_empty t.size earlier⟩

/-- Steps that file no bodies file none one after the other. -/
theorem blocks_foldl (step : Builder → NodeId → Builder) (each : ∀ b i, (step b i).blocks = b.blocks)
    (ids : List NodeId) : ∀ b : Builder, (ids.foldl step b).blocks = b.blocks := by
  induction ids with
  | nil => exact fun _ => rfl
  | cons i ids ih => exact fun b => (ih (step b i)).trans (each b i)

theorem Joined.add (joined : Joined t earlier alone b) (kind : NodeKind) (offset : Nat) :
    Joined t earlier (alone.add kind offset) (b.add kind offset) :=
  ⟨joined.toBehind.add kind offset, joined.piled⟩

/-- The children of a definition are the same nodes, moved up. -/
theorem Joined.close (joined : Joined t earlier alone b) (i : NodeId) :
    Joined t earlier (alone.close i) (b.close (i + t.size)) := by
  refine ⟨joined.toBehind.close i, ?_⟩
  have tree : b.tree.setState (i + t.size) .closed = t.graft (alone.tree.setState i .closed) :=
    (joined.toBehind.setState i .closed).tree
  unfold Builder.close
  dsimp only
  rw [tree, Tree.kind?_graft]
  split
  · rename_i name attributes state found
    rw [Tree.children_graft]
    exact joined.piled.push name _
  · exact joined.piled

theorem Joined.openBlock (joined : Joined t earlier alone b) (tag : Tag) (selfClosing : Bool) (offset : Nat) :
    Joined t earlier (alone.openBlock tag selfClosing offset) (b.openBlock tag selfClosing offset) := by
  refine ⟨joined.toBehind.openBlock tag selfClosing offset, ?_⟩
  cases selfClosing with
  | true =>
    have size : b.tree.size = alone.tree.size + t.size := by rw [joined.tree, Tree.size_graft]
    show BlockStack.Piled t.size earlier ((alone.add (blockKind tag) offset).close alone.tree.size).blocks
      ((b.add (blockKind tag) offset).close b.tree.size).blocks
    rw [size]
    exact ((joined.add (blockKind tag) offset).close alone.tree.size).piled
  | false => exact joined.piled

theorem Joined.closeBlock (joined : Joined t earlier alone b) (name : Text) (offset : Nat) :
    Joined t earlier (alone.closeBlock name offset) (b.closeBlock name offset) := by
  refine ⟨joined.toBehind.closeBlock name offset, ?_⟩
  rcases joined.toBehind.closeBlock_cases name offset with ⟨eq, eq'⟩ | ⟨inner, matched, eq, eq'⟩
  · rw [eq, eq']
    exact joined.piled
  · rw [eq, eq']
    have abandoned : Joined t earlier (inner.foldl abandon alone) ((inner.map (· + t.size)).foldl abandon b) := by
      refine ⟨joined.toBehind.foldl Behind.abandon inner, ?_⟩
      rw [blocks_foldl abandon fun _ _ => rfl, blocks_foldl abandon fun _ _ => rfl]
      exact joined.piled
    exact (abandoned.close matched).piled

theorem blocks_pushValue (b : Builder) (tag : Tag) (offset : Nat) : (b.pushValue tag offset).blocks = b.blocks := by
  unfold pushValue
  split
  · split <;> rfl
  · split <;> rfl

theorem Joined.push (joined : Joined t earlier alone b) (token : Token) :
    Joined t earlier (alone.push token) (b.push token) := by
  unfold Builder.push
  split
  · exact joined.add ..
  · split
    · refine ⟨joined.toBehind.pushValue .., ?_⟩
      rw [blocks_pushValue, blocks_pushValue]
      exact joined.piled
    · exact joined.openBlock ..
    · exact joined.closeBlock ..

theorem Joined.foldl_push (tokens : List Token) : ∀ {alone b : Builder}, Joined t earlier alone b →
    Joined t earlier (tokens.foldl Builder.push alone) (tokens.foldl Builder.push b) := by
  induction tokens with
  | nil => exact fun joined => joined
  | cons token tokens ih => exact fun joined => ih (joined.push token)

theorem Joined.finish (joined : Joined t earlier alone b) : Joined t earlier alone.finish b.finish := by
  refine ⟨joined.toBehind.finish, ?_⟩
  unfold Builder.finish
  rw [blocks_foldl reportMissing fun _ _ => rfl, blocks_foldl reportMissing fun _ _ => rfl]
  exact joined.piled

end Builder

theorem Tree.joined_build (tokens : List Token) (source : Text) (t : Tree) (earlier : BlockStack) :
    Builder.Joined t earlier (Tree.build tokens source {} {}) (Tree.build tokens source t earlier) :=
  ((Builder.joined_start source t earlier).foldl_push tokens).finish

/-! ## The diagnostics of a chain -/

/-- What is reported of a source that is built on its own; the reports name the file. -/
def Settings.diagnosticsOf (s : Settings) (file : Option Location) (source : Text) : List Diagnostic :=
  let text := Source.prepare s.options source
  (Tree.build (Token.tokenize text) text {} {}).diagnostics.map fun d => { d with file }

def Settings.diagnosticsAt (s : Settings) (fs : FileSystem) (file : Location) : List Diagnostic :=
  match fs.readAt file with
  | .ok source => s.diagnosticsOf (some file) source
  | .error _ => []

namespace Chain

variable {s : Settings} {fs : FileSystem}

theorem diagnostics_buildFile (s : Settings) (c : Chain) (origin : Option Template) (source : Text) :
    (buildFile s c origin source).2.diagnostics = c.diagnostics ++ s.diagnosticsOf (origin.map (·.file)) source := by
  have alone := (Tree.behind_build (Token.tokenize (Source.prepare s.options source))
    (Source.prepare s.options source) c.tree c.blocks).diagnostics
  show c.diagnostics ++ _ = _
  rw [alone]
  rfl

theorem diagnostics_of_follows {c chain : Chain} {origin : Option Template} {source : Text} {further : List Location}
    (follows : Follows s fs c origin source further chain) :
    chain.diagnostics
      = c.diagnostics ++ s.diagnosticsOf (origin.map (·.file)) source ++ further.flatMap (s.diagnosticsAt fs) := by
  induction follows with
  | last _ => rw [diagnostics_buildFile, List.flatMap_nil, List.append_nil]
  | @next c _ origin source text _ next files _ _ _ reads _ ih =>
    have own : s.diagnosticsAt fs next.file = s.diagnosticsOf (some next.file) text := by
      rw [Settings.diagnosticsAt, reads]
    have before := diagnostics_buildFile s c origin source
    rw [ih, List.flatMap_cons, own, ← List.append_assoc]
    exact congrArg (· ++ _ ++ _) before

end Chain

/-! ## Locality -/

/-- A file was built to `b` onto the arena `t` and the block stack `earlier`, and to `alone` on its own: what was
there before is still there, and behind it is what the file alone comes to. -/
structure Builder.Local (t : Tree) (earlier : BlockStack) (alone b : Builder) : Prop where
  extendsTarget : b.extendsTarget = alone.extendsTarget
  diagnostics : b.diagnostics = alone.diagnostics
  root : b.root = alone.root + t.size
  size : b.tree.size = alone.tree.size + t.size
  before : ∀ i < t.size, b.tree.node? i = t.node? i
  behind : ∀ i, b.tree.node? (i + t.size) = (alone.tree.node? i).map (Node.shift t.size)
  cursor : ∀ name, (b.blocks.slot name).cursor = (earlier.slot name).cursor
  bodies : ∀ name, (b.blocks.slot name).bodies
    = (earlier.slot name).bodies ++ (alone.blocks.slot name).bodies.map (Body.shift t.size)

/-- **Building is local.**  Whatever arena and block stack tokens are built onto, these are kept as they are, and
what is added is what the tokens come to on their own.  So the diagnostics of a chain are those of its source and
of the files it goes on to, each on its own, in the order in which they are visited. -/
theorem build_is_local :
    (∀ tokens source t earlier,
      Builder.Local t earlier (Tree.build tokens source {} {}) (Tree.build tokens source t earlier)) ∧
    ∀ s fs origin source log chain, ((Chain.ofSource s fs origin source).run log).1 = .ok chain →
      ∃ further, Chain.Follows s fs {} origin source further chain ∧
        chain.diagnostics
          = s.diagnosticsOf (origin.map (·.file)) source ++ further.flatMap (s.diagnosticsAt fs) := by
  constructor
  · intro tokens source t earlier
    have joined := Tree.joined_build tokens source t earlier
    constructor
    case extendsTarget => exact joined.extendsTarget
    case diagnostics => exact joined.diagnostics
    case root => exact joined.root
    case size => rw [joined.tree, Tree.size_graft]
    case before =>
      intro i lt
      rw [joined.tree, Tree.node?_graft_of_lt _ _ lt]
    case behind =>
      intro i
      rw [joined.tree, Tree.node?_graft]
    case cursor =>
      intro name
      rw [joined.piled name]
    case bodies =>
      intro name
      rw [joined.piled name]
  · intro s fs origin source log chain built
    obtain ⟨further, follows⟩ := Chain.ofSource_eq_ok_iff.1 built
    refine ⟨further, follows, ?_⟩
    have diagnostics := Chain.diagnostics_of_follows follows
    rwa [List.nil_append] at diagnostics

/-- A source and the template it extends, both with tags that do not nest. -/
def faultySource : Text := extending ['r'] ++ "</tpl:Nope>".toList

def faultyTemplates : List (Text × Text) := [(['r'], "x<tpl:Card>".toList)]

theorem build_is_local_faultySource :
    (∃ further, Chain.Follows librarySettings (libraryOf faultyTemplates) {} none faultySource further
        (chainIn faultyTemplates faultySource) ∧
      (chainIn faultyTemplates faultySource).diagnostics = librarySettings.diagnosticsOf none faultySource
        ++ further.flatMap (librarySettings.diagnosticsAt (libraryOf faultyTemplates))) ∧
    (chainIn faultyTemplates faultySource).diagnostics.map (fun d => (d.file, d.tag))
      = [(none, "Nope".toList), (some [['r']], "Card".toList)] :=
  ⟨build_is_local.2 librarySettings (libraryOf faultyTemplates) none faultySource [] _
    (built_chainIn (by decide +kernel)), by decide +kernel⟩

end TagTemplate
