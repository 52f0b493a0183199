/-
# Proofs.Tree.Texts -- what stands in an arena was in the tokens

Building adds one text node for each text among the tokens and changes none later, and
the tag of a block, in the arena or in a diagnostic, is that of a tag among the tokens.
So what holds of all texts and of all names of tags that are read holds of the arena and
the diagnostics (`Builder.Written`), and every token keeps that (`written_push`).
-/
import TagTemplate.Proofs.Tree.Unclosed

namespace TagTemplate

set_option autoImplicit false

namespace Tree

/-- A state only changes nodes that have one. -/
theorem withState_eq_iff (s : BlockState) {k k' : NodeKind} (stateless : k.state? = none) :
    k'.withState s = k ↔ k' = k := by
  cases k' with
  | block tag attributes state =>
    constructor <;> rintro rfl <;> cases stateless
  | definition name attributes state =>
    constructor <;> rintro rfl <;> cases stateless
  | _ => exact .rfl

theorem kind?_setState_iff (t : Tree) (id : NodeId) (s : BlockState) (i : NodeId) {k : NodeKind}
    (stateless : k.state? = none) : (t.setState id s).kind? i = some k ↔ t.kind? i = some k := by
  rw [kind?_setState]
  split
  · cases t.kind? i with
    | none => exact .rfl
    | some k' =>
      rw [Option.map_some, Option.some_inj, Option.some_inj]
      exact withState_eq_iff s stateless
  · exact .rfl

end Tree

namespace Builder

/-- The root is one, every text has one property and every tag of a block has another, and no body is
compiled. -/
structure Written (p q : Text → Prop) (b : Builder) : Prop where
  root : b.tree.kind? b.root = some .root
  text : ∀ id x, b.tree.kind? id = some (.text x) → p x
  tag : ∀ id name, b.tree.tag? id = some name → q name
  diagnostic : ∀ d ∈ b.diagnostics, d.file = none ∧ q d.tag
  unused : ∀ name output, .compiled output ∉ (b.blocks.slot name).bodies

variable {p q : Text → Prop} {b : Builder}

theorem written_start (source : Text) : Written p q (start source {} {}) where
  root := by
    show (Tree.addRoot {}).kind? (Tree.size {}) = _
    rw [Tree.kind?_addRoot, if_pos rfl]
  text id x kind := by
    change (Tree.addRoot {}).kind? id = _ at kind
    rw [Tree.kind?_addRoot] at kind
    split at kind <;> cases kind
  tag id name named := by
    change (Tree.addRoot {}).tag? id = _ at named
    rw [Tree.tag?, Tree.kind?_addRoot] at named
    split at named <;> cases named
  diagnostic _ mem := nomatch mem
  unused _ _ mem := nomatch mem

theorem written_add (sound : b.Sound) (written : Written p q b) {kind : NodeKind}
    (text : ∀ x, kind = .text x → p x) (tag : ∀ name, kind.tag? = some name → q name) (offset : Nat) :
    Written p q (b.add kind offset) := by
  have same := Tree.kind?_append (inside_current sound) kind offset
  refine ⟨?_, fun id x eq => ?_, fun id name eq => ?_, written.diagnostic, written.unused⟩
  · exact (same b.root).trans ((if_neg (root_ne_size sound)).trans written.root)
  · replace eq := (same id).symm.trans eq
    split at eq
    · exact text x (Option.some.inj eq)
    · exact written.text id x eq
  · change ((b.tree.append b.current kind offset).kind? id).bind _ = _ at eq
    rw [same] at eq
    split at eq
    · exact tag name eq
    · exact written.tag id name eq

/-- A report names the tag of a node. -/
theorem written_report (written : Written p q b) {name : Text} (named : q name) (fault : Fault) (offset : Nat) :
    Written p q (b.report fault name offset) := by
  refine ⟨written.root, written.text, written.tag, fun d mem => ?_, written.unused⟩
  rcases List.mem_append.1 mem with mem | mem
  · exact written.diagnostic d mem
  · rw [List.mem_singleton.1 mem]
    exact ⟨rfl, named⟩

theorem written_reportMissing (written : Written p q b) (nil : q []) (id : NodeId) :
    Written p q (b.reportMissing id) := by
  refine written_report (b := b.note _) ⟨written.root, written.text, written.tag, written.diagnostic, written.unused⟩ ?_ _ _
  cases named : b.tree.tag? id with
  | none => exact nil
  | some name => exact written.tag id name named

theorem written_abandon (written : Written p q b) (nil : q []) (id : NodeId) :
    Written p q (b.abandon id) := by
  refine written_reportMissing (b := { b with tree := b.tree.setState id .abandoned }) ⟨?_, fun i x => ?_, fun i name => ?_,
    written.diagnostic, written.unused⟩ nil id
  · exact (Tree.kind?_setState_iff _ _ _ _ rfl).2 written.root
  · exact fun kind => written.text i x ((Tree.kind?_setState_iff _ _ _ _ rfl).1 kind)
  · exact fun named => written.tag i name ((tag?_setState ..).symm.trans named)

theorem written_foldl {step : Builder → NodeId → Builder}
    (each : ∀ {b : Builder}, Written p q b → ∀ id, Written p q (step b id)) (ids : List NodeId) :
    ∀ b : Builder, Written p q b → Written p q (ids.foldl step b) := by
  induction ids with
  | nil => exact fun _ written => written
  | cons id ids ih => exact fun b written => ih (step b id) (each written id)

theorem written_close (written : Written p q b) (id : NodeId) : Written p q (b.close id) := by
  have frame := frame_close b id
  have kind : ∀ i, (b.close id).tree.kind? i = (b.tree.setState id .closed).kind? i := by
    intro i
    unfold close
    dsimp only
    split
    · exact Tree.kind?_clearChildren ..
    · rfl
  have unused : ∀ name output, .compiled output ∉ ((b.close id).blocks.slot name).bodies := by
    intro name output
    unfold close
    dsimp only
    split
    · rename_i name' _ _ _
      rw [note, BlockStack.push]
      by_cases same : name = name'
      · rw [same, BlockStack.slot_modify_same]
        intro mem
        rcases List.mem_append.1 mem with mem | mem
        · exact written.unused name' output mem
        · cases List.mem_singleton.1 mem
      · rw [BlockStack.slot_modify_ne _ _ same]
        exact written.unused name output
    · exact written.unused name output
  refine ⟨?_, fun i x => ?_, fun i name => ?_, fun d mem => ?_, unused⟩
  · rw [frame.root, kind]
    exact (Tree.kind?_setState_iff _ _ _ _ rfl).2 written.root
  · rw [kind]
    exact fun eq => written.text i x ((Tree.kind?_setState_iff _ _ _ _ rfl).1 eq)
  · rw [frame.tag]
    exact written.tag i name
  · rw [diagnostics_close] at mem
    exact written.diagnostic d mem

theorem written_openBlock (sound : b.Sound) (written : Written p q b) (definition : q definitionTag) {t : Tag}
    (named : q t.name) (selfClosing : Bool) (offset : Nat) : Written p q (b.openBlock t selfClosing offset) := by
  have added : Written p q (b.add (blockKind t) offset) := by
    refine written_add sound written (fun x eq => ?_) (fun name eq => ?_) offset
    · unfold blockKind at eq
      split at eq <;> cases eq
    · unfold blockKind at eq
      split at eq <;> cases eq
      · exact definition
      · exact named
  cases selfClosing with
  | true => exact written_close added _
  | false => exact ⟨added.root, added.text, added.tag, added.diagnostic, added.unused⟩

theorem written_closeBlock (sound : b.Sound) (written : Written p q b) (nil : q []) {name : Text}
    (named : q name) (offset : Nat) : Written p q (b.closeBlock name offset) := by
  rcases closeBlock_cases sound name offset with eq | ⟨inner, matched, outer, -, -, -, -, eq⟩
  · rw [eq]
    exact written_report (b := b.note _) ⟨written.root, written.text, written.tag, written.diagnostic, written.unused⟩ named _ _
  · rw [eq]
    have closed := written_close (written_foldl (fun written => written_abandon written nil) inner b written) matched
    exact ⟨closed.root, closed.text, closed.tag, closed.diagnostic, closed.unused⟩

/-- **Every token that has the properties keeps them.** -/
theorem written_push (sound : b.Sound) (written : Written p q b) (nil : q []) (definition : q definitionTag)
    {t : Token} (text : ∀ x, t.fragment = .text x → p x) (named : ∀ tag, t.fragment = .tag tag → q tag.name) :
    Written p q (b.push t) := by
  have pushed := pushed_push b t
  generalize b.push t = b' at pushed ⊢
  cases pushed with
  | leaf settled _ same =>
    refine written_add sound written (fun x eq => text x (same x eq)) (fun name tag => ?_) t.start
    rw [NodeKind.tag?_of_settled settled] at tag
    cases tag
  | extending _ => exact ⟨written.root, written.text, written.tag, written.diagnostic, written.unused⟩
  | opening fragment _ => exact written_openBlock sound written definition (named _ fragment) _ _
  | closing fragment _ => exact written_closeBlock sound written nil (named _ fragment) _

theorem written_foldl_push (nil : q []) (definition : q definitionTag) (tokens : List Token) :
    ∀ b : Builder, b.Sound → Written p q b → (∀ t ∈ tokens, ∀ x, t.fragment = .text x → p x) →
      (∀ t ∈ tokens, ∀ tag, t.fragment = .tag tag → q tag.name) → Written p q (tokens.foldl push b) := by
  induction tokens with
  | nil => exact fun _ _ written _ _ => written
  | cons t tokens ih =>
    intro b sound written texts tags
    have pushed := written_push sound written nil definition (texts t (List.mem_cons_self ..))
      (tags t (List.mem_cons_self ..))
    exact ih (b.push t) (sound_push sound t) pushed (fun u mem => texts u (List.mem_cons_of_mem _ mem))
      fun u mem => tags u (List.mem_cons_of_mem _ mem)

end Builder

end TagTemplate
